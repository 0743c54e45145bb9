import ProjectMu.GptCrash
import ProjectMu.GptLoadBounds

/-!
# The entries and their names stay inside the arrays

The functions on entries and names with the characters they read, and the copy of a header that
is written. Both arrays of a disk are indexed with the numbers of the primary header; the loader
has compared them with the backup's, and a name without a terminator ends with its entry.
-/

namespace ProjectMu.GptBounds

open AccessLog Attempt GptAccess ByteCodec ByteRange

/-- The offset of the entry that is pointed to, in the array of either copy. -/
def getGptEntry (disk : GptDisk) (entryIndex : BitVec 64) : Option (BitVec 64) :=
  if disk.primaryHeader.numberOfPartitionEntries.setWidth 64 ≤ entryIndex then none
  else some (entryIndex * disk.primaryHeader.sizeOfPartitionEntry.setWidth 64)

def readCharacter (partitionName : List.Vector (BitVec 16) gptMaxNameLength) (i : ℕ) :
    Logged GptAccess (BitVec 16) :=
  access (.character i) (partitionName.toList.getD i 0)

/-- The loop over the characters from `i` on. -/
def searchTerminator (partitionName : List.Vector (BitVec 16) gptMaxNameLength) :
    ℕ → ℕ → Logged GptAccess ℕ
  | 0, i => pure i
  | left + 1, i => do
    let character ← readCharacter partitionName i
    if character = 0 then pure i else searchTerminator partitionName left (i + 1)

def getPartitionNameLength (partitionName : List.Vector (BitVec 16) gptMaxNameLength) :
    Logged GptAccess ℕ :=
  searchTerminator partitionName gptMaxNameLength 0

/-- The characters that `CompareMem` may read, all up to a length. -/
def readCharacters (partitionName : List.Vector (BitVec 16) gptMaxNameLength) (n : ℕ) :
    Logged GptAccess (List (BitVec 16)) :=
  ⟨partitionName.toList.take n, (List.range n).map .character⟩

def doesPartitionNameEndWithSlot (entry : EfiPartitionEntry) (slot : BitVec 16) :
    Logged GptAccess Bool := do
  let nameLength ← getPartitionNameLength entry.partitionName
  if nameLength < 3 then pure false
  else
    .and (do
      let character ← readCharacter entry.partitionName (nameLength - 2)
      pure (character == charUnderscore)) <| do
    let character ← readCharacter entry.partitionName (nameLength - 1)
    pure (character == slot)

def isPartitionNameEqual (entry : EfiPartitionEntry) (partitionName : List (BitVec 16)) :
    Logged GptAccess Bool := do
  let entryNameLength ← getPartitionNameLength entry.partitionName
  if entryNameLength ≠ partitionName.length then pure false
  else do
    let characters ← readCharacters entry.partitionName partitionName.length
    pure (characters == partitionName)

def areEntryNamesEqual (entryA entryB : EfiPartitionEntry) : Logged GptAccess Bool := do
  let nameLengthA ← getPartitionNameLength entryA.partitionName
  let nameLengthB ← getPartitionNameLength entryB.partitionName
  if nameLengthA ≠ nameLengthB then pure false
  else do
    let charactersA ← readCharacters entryA.partitionName nameLengthA
    let charactersB ← readCharacters entryB.partitionName nameLengthA
    pure (charactersA == charactersB)

def areEntriesSlotPair (entryA entryB : EfiPartitionEntry) : Logged GptAccess Bool := do
  let nameLengthA ← getPartitionNameLength entryA.partitionName
  let nameLengthB ← getPartitionNameLength entryB.partitionName
  let differ ←
    .or (pure (nameLengthA ≠ nameLengthB)) <|
    .or (pure (nameLengthA < 3)) <|
    .or (do
      let ends ← doesPartitionNameEndWithSlot entryA charA
      pure (!ends)) <| do
    let ends ← doesPartitionNameEndWithSlot entryB charB
    pure (!ends)
  if differ then pure false
  else do
    let charactersA ← readCharacters entryA.partitionName (nameLengthA - 2)
    let charactersB ← readCharacters entryB.partitionName (nameLengthA - 2)
    pure (charactersA == charactersB)

/-- The offset and the data of the write. The header is copied into a block of zeros. -/
def writeGptHeader (allocated : Bool) (disk : GptDisk) (header : EfiPartitionTableHeader) :
    Checked (BitVec 64 × List Byte) := do
  let offset ← gptLbaToOffset disk.blockIo header.myLBA
  if allocated = false then throw .outOfResources
  else do
    touch (.bytes disk.blockIo.blockSize.toNat 0 headerCodec.size)
    touch (.bytes disk.blockIo.blockSize.toNat 0 disk.blockIo.blockSize.toNat)
    pure (offset, splice (List.replicate disk.blockIo.blockSize.toNat 0) 0
      (headerCodec.encode header))

section Names

variable {partitionName : List.Vector (BitVec 16) gptMaxNameLength} {left i n : ℕ}
  {entry entryA entryB : EfiPartitionEntry} {slot : BitVec 16} {text : List (BitVec 16)}

theorem value_searchTerminator (h : i + left = gptMaxNameLength) :
    (searchTerminator partitionName left i).value =
      i + (partitionName.toList.drop i).findIdx (· == 0) := by
  have hlength : partitionName.toList.length = gptMaxNameLength := partitionName.toList_length
  induction left generalizing i with
  | zero =>
    rw [List.drop_eq_nil_of_le (by omega), List.findIdx_nil]
    rfl
  | succ left ih =>
    have hlt : i < partitionName.toList.length := by omega
    rw [searchTerminator, value_bind, List.drop_eq_getElem_cons hlt, List.findIdx_cons]
    have hread : (readCharacter partitionName i).value = partitionName.toList[i] :=
      List.getD_eq_getElem _ _ hlt
    rw [hread]
    by_cases hzero : partitionName.toList[i] = 0
    · rw [if_pos hzero, beq_iff_eq.mpr hzero]
      rfl
    · rw [if_neg hzero, beq_false_of_ne hzero, ih (by omega), cond_false]
      omega

theorem value_getPartitionNameLength :
    (getPartitionNameLength partitionName).value =
      ProjectMu.getPartitionNameLength partitionName := by
  rw [getPartitionNameLength, value_searchTerminator (Nat.zero_add _), Nat.zero_add, List.drop_zero]
  rfl

theorem getPartitionNameLength_le : ProjectMu.getPartitionNameLength partitionName ≤
    gptMaxNameLength :=
  List.findIdx_le_length.trans_eq partitionName.toList_length

@[simp] theorem value_doesPartitionNameEndWithSlot :
    (doesPartitionNameEndWithSlot entry slot).value =
      ProjectMu.doesPartitionNameEndWithSlot entry slot := by
  rw [doesPartitionNameEndWithSlot, ProjectMu.doesPartitionNameEndWithSlot, value_bind,
    value_getPartitionNameLength]
  split_ifs
  · rfl
  · rw [Logged.value_and]
    rfl

@[simp] theorem value_isPartitionNameEqual :
    (isPartitionNameEqual entry text).value = ProjectMu.isPartitionNameEqual entry text := by
  rw [isPartitionNameEqual, ProjectMu.isPartitionNameEqual, value_bind,
    value_getPartitionNameLength]
  split_ifs <;> rfl

@[simp] theorem value_areEntryNamesEqual :
    (areEntryNamesEqual entryA entryB).value = ProjectMu.areEntryNamesEqual entryA entryB := by
  rw [areEntryNamesEqual, ProjectMu.areEntryNamesEqual, value_bind, value_bind,
    value_getPartitionNameLength, value_getPartitionNameLength]
  split_ifs <;> rfl

@[simp] theorem value_areEntriesSlotPair :
    (areEntriesSlotPair entryA entryB).value = ProjectMu.areEntriesSlotPair entryA entryB := by
  rw [areEntriesSlotPair, ProjectMu.areEntriesSlotPair, value_bind, value_bind, value_bind,
    value_getPartitionNameLength, value_getPartitionNameLength]
  simp only [Logged.value_or, value_bind, value_pure, value_doesPartitionNameEndWithSlot,
    Bool.or_eq_true, decide_eq_true_eq, Bool.not_eq_true']
  split_ifs <;> rfl

theorem within_searchTerminator (h : i + left = gptMaxNameLength) :
    (searchTerminator partitionName left i).Within InBounds := by
  induction left generalizing i with
  | zero => exact Logged.within_pure _
  | succ left ih =>
    have hlt : i < gptMaxNameLength := by omega
    rw [searchTerminator, Logged.within_bind]
    refine ⟨Logged.within_access.mpr hlt, ?_⟩
    split
    · exact Logged.within_pure _
    · exact ih (by omega)

theorem within_getPartitionNameLength :
    (getPartitionNameLength partitionName).Within InBounds :=
  within_searchTerminator (Nat.zero_add _)

theorem within_readCharacters (h : n ≤ gptMaxNameLength) :
    (readCharacters partitionName n).Within InBounds := by
  intro a ha
  obtain ⟨i, hi, rfl⟩ := List.mem_map.mp ha
  exact (List.mem_range.mp hi).trans_le h

theorem within_doesPartitionNameEndWithSlot :
    (doesPartitionNameEndWithSlot entry slot).Within InBounds := by
  have hle : ProjectMu.getPartitionNameLength entry.partitionName ≤ gptMaxNameLength :=
    getPartitionNameLength_le
  have hread {i : ℕ} (hi : i < gptMaxNameLength) (c : BitVec 16) :
      (do
        let character ← readCharacter entry.partitionName i
        pure (character == c)).Within InBounds :=
    Logged.within_bind.mpr ⟨Logged.within_access.mpr hi, Logged.within_pure _⟩
  rw [doesPartitionNameEndWithSlot, Logged.within_bind, value_getPartitionNameLength]
  refine ⟨within_getPartitionNameLength, ?_⟩
  split
  · exact Logged.within_pure _
  · exact Logged.within_and.mpr ⟨hread (by omega) _, fun _ => hread (by omega) _⟩

theorem within_isPartitionNameEqual : (isPartitionNameEqual entry text).Within InBounds := by
  rw [isPartitionNameEqual, Logged.within_bind, value_getPartitionNameLength]
  refine ⟨within_getPartitionNameLength, ?_⟩
  split
  · exact Logged.within_pure _
  next hlength =>
    have hle : text.length ≤ gptMaxNameLength :=
      (not_not.mp hlength).symm.trans_le getPartitionNameLength_le
    exact Logged.within_bind.mpr ⟨within_readCharacters hle, Logged.within_pure _⟩

/-- The first characters of two names are read. -/
theorem within_readCharacters_pair (h : n ≤ gptMaxNameLength) :
    (do
      let charactersA ← readCharacters entryA.partitionName n
      let charactersB ← readCharacters entryB.partitionName n
      pure (charactersA == charactersB)).Within InBounds := by
  rw [Logged.within_bind, Logged.within_bind]
  exact ⟨within_readCharacters h, within_readCharacters h, Logged.within_pure _⟩

theorem within_areEntryNamesEqual : (areEntryNamesEqual entryA entryB).Within InBounds := by
  rw [areEntryNamesEqual, Logged.within_bind, Logged.within_bind, value_getPartitionNameLength,
    value_getPartitionNameLength]
  refine ⟨within_getPartitionNameLength, within_getPartitionNameLength, ?_⟩
  split
  · exact Logged.within_pure _
  · exact within_readCharacters_pair getPartitionNameLength_le

theorem within_areEntriesSlotPair : (areEntriesSlotPair entryA entryB).Within InBounds := by
  have hends {entry : EfiPartitionEntry} {slot : BitVec 16} :
      (do
        let ends ← doesPartitionNameEndWithSlot entry slot
        pure (!ends)).Within InBounds :=
    Logged.within_bind.mpr ⟨within_doesPartitionNameEndWithSlot, Logged.within_pure _⟩
  rw [areEntriesSlotPair, Logged.within_bind, Logged.within_bind, value_getPartitionNameLength,
    value_getPartitionNameLength, Logged.within_bind, Logged.within_or, Logged.within_or,
    Logged.within_or]
  refine ⟨within_getPartitionNameLength, within_getPartitionNameLength,
    ⟨Logged.within_pure _, fun _ => ⟨Logged.within_pure _, fun _ => ⟨hends, fun _ => hends⟩⟩⟩, ?_⟩
  split
  · exact Logged.within_pure _
  · exact within_readCharacters_pair ((Nat.sub_le _ _).trans getPartitionNameLength_le)

end Names

section Disk

variable {disk : GptDisk} {header : EfiPartitionTableHeader} {entryIndex : BitVec 64}

/-- The product of the index and the size does not wrap around. -/
theorem toNat_mul_entrySize (h : entryIndex.toNat < disk.entryCount) :
    (entryIndex * disk.primaryHeader.sizeOfPartitionEntry.setWidth 64).toNat =
      entryIndex.toNat * disk.entrySize := by
  have hcount : disk.entryCount < 2 ^ 32 := disk.primaryHeader.numberOfPartitionEntries.isLt
  have hsize : disk.entrySize < 2 ^ 32 := disk.primaryHeader.sizeOfPartitionEntry.isLt
  have hlt : entryIndex.toNat * disk.entrySize < 2 ^ 32 * 2 ^ 32 :=
    Nat.mul_lt_mul'' (h.trans hcount) hsize
  rw [BitVec.toNat_mul, BitVec.toNat_setWidth_of_le (by decide)]
  exact Nat.mod_eq_of_lt hlt

theorem setWidth_le_iff : disk.primaryHeader.numberOfPartitionEntries.setWidth 64 ≤ entryIndex ↔
    disk.entryCount ≤ entryIndex.toNat := by
  rw [BitVec.le_def, BitVec.toNat_setWidth_of_le (by decide)]
  rfl

/-- The entry is what the pointer refers to. -/
theorem getGptEntry_eq (disk : GptDisk) (backup : Bool) (entryIndex : BitVec 64) :
    ProjectMu.getGptEntry disk backup entryIndex.toNat =
      (getGptEntry disk entryIndex).map fun offset =>
        entryCodec.decode (slice (disk.entries backup) offset.toNat entryCodec.size) := by
  rw [ProjectMu.getGptEntry, getGptEntry]
  by_cases h : disk.entryCount ≤ entryIndex.toNat
  · rw [if_pos h, if_pos (setWidth_le_iff.mpr h)]
    rfl
  · rw [if_neg h, if_neg (mt setWidth_le_iff.mp h), Option.map_some,
      toNat_mul_entrySize (Nat.lt_of_not_le h)]

/-- The header of the disk is written as the copy says, if the call gets to that. -/
theorem writeGptHeader_eq {plan : CallPlan} {block call : CommitCall}
    (h : plan.outcome block ≠ .powerLoss) :
    ProjectMu.writeGptHeader plan block call disk header = (do
      let request ← ofExcept (writeGptHeader (plan.outcome block = .success) disk header).result
      writeDisk plan call disk.blockIo request.1 request.2) := by
  simp only [writeGptHeader, ProjectMu.writeGptHeader, result_bind, result_ite, result_throw,
    result_touch, result_pure, result_gptLbaToOffset]
  cases ProjectMu.gptLbaToOffset disk.blockIo header.myLBA with
  | error e => rfl
  | ok offset =>
    cases houtcome : plan.outcome block with
    | success =>
      rw [allocateZeroPool, houtcome]
      rfl
    | failure e =>
      rw [allocateZeroPool, houtcome]
      rfl
    | powerLoss => exact absurd houtcome h

theorem within_writeGptHeader {allocated : Bool}
    (h : headerCodec.size ≤ disk.blockIo.blockSize.toNat) :
    (writeGptHeader allocated disk header).Within InBounds := by
  rw [writeGptHeader, within_bind]
  refine ⟨within_gptLbaToOffset, fun _ _ => ?_⟩
  rw [within_ite]
  simp [within_bind, InBounds, h]

end Disk

/-- Whatever the functions on names do with the name of an entry, alone or in a pair. -/
structure NameInBounds (entry : EfiPartitionEntry) : Prop where
  length : (getPartitionNameLength entry.partitionName).Within InBounds
  endsWithSlot : ∀ slot, (doesPartitionNameEndWithSlot entry slot).Within InBounds
  isEqual : ∀ text, (isPartitionNameEqual entry text).Within InBounds
  areEqual : ∀ other, (areEntryNamesEqual entry other).Within InBounds ∧
    (areEntryNamesEqual other entry).Within InBounds
  slotPair : ∀ other, (areEntriesSlotPair entry other).Within InBounds ∧
    (areEntriesSlotPair other entry).Within InBounds

/-- The size of the arrays of a disk, its entries, their names and the copies of its headers. -/
structure BufferBounds (disk : GptDisk) : Prop where
  product_lt : disk.entryCount * disk.entrySize < 2 ^ 32
  entryArraySize : disk.entryArraySize = (disk.primaryHeader.numberOfPartitionEntries *
    disk.primaryHeader.sizeOfPartitionEntry).toNat
  size_le : disk.entryArraySize ≤ gptMaxEntryArraySize
  allocated : ∀ backup, (disk.entries backup).length = disk.entryArraySize
  entry : ∀ entryIndex < disk.primaryHeader.numberOfPartitionEntries.setWidth 64,
    ∃ offset, getGptEntry disk entryIndex = some offset ∧
      offset.toNat + entryCodec.size ≤ disk.entryArraySize
  name : ∀ backup entryIndex entry, ProjectMu.getGptEntry disk backup entryIndex = some entry →
    NameInBounds entry
  headerCopy : ∀ allocated header, (writeGptHeader allocated disk header).Within InBounds

theorem nameInBounds (entry : EfiPartitionEntry) : NameInBounds entry where
  length := within_getPartitionNameLength
  endsWithSlot _ := within_doesPartitionNameEndWithSlot
  isEqual _ := within_isPartitionNameEqual
  areEqual _ := ⟨within_areEntryNamesEqual, within_areEntryNamesEqual⟩
  slotPair _ := ⟨within_areEntriesSlotPair, within_areEntriesSlotPair⟩

/-- What an accepted disk is bounded by. -/
theorem bufferBounds_of_le {disk : GptDisk}
    (hsize : disk.entryCount ≤ gptMaxEntryArraySize / disk.entrySize)
    (hblock : headerCodec.size ≤ disk.blockIo.blockSize.toNat) : BufferBounds disk := by
  have hproduct := entryArraySize_toNat disk.entrySize_le hsize
  have hle : disk.entryCount * disk.entrySize ≤ gptMaxEntryArraySize :=
    (Nat.mul_le_mul_right _ hsize).trans (Nat.div_mul_le_self _ _)
  refine ⟨hle.trans_lt (by decide), disk.entryArraySize_eq.trans hproduct.symm,
    disk.entryArraySize_eq_mul.trans_le hle, disk.length_entries, ?_, ?_, ?_⟩
  · intro entryIndex hlt
    have hindex : entryIndex.toNat < disk.entryCount :=
      Nat.lt_of_not_le (mt setWidth_le_iff.mpr (BitVec.not_le.mpr hlt))
    refine ⟨_, if_neg (BitVec.not_le.mpr hlt), ?_⟩
    rw [toNat_mul_entrySize hindex, ← disk.length_entries false]
    exact disk.entry_le hindex false
  · exact fun _ _ entry _ => nameInBounds entry
  · exact fun _ _ => within_writeGptHeader hblock

/-- The bounds are those of the disk that was loaded, whatever was switched since. -/
theorem bufferBounds_switched {crc32 : List Byte → BitVec 32} {devices : ℕ → Store Byte}
    {handles : Except EfiError (List Handle)} {allocated : Bool} {disks disks' : List GptDisk}
    {currentSlot targetSlot : AbSlot} {n n' : ℕ}
    (hload : loadGptDisks crc32 devices handles allocated = .ok disks)
    (hblock : ∀ disk ∈ disks, 512 ≤ disk.blockIo.blockSize.toNat)
    (hswitch : switchAllGptPairs disks currentSlot targetSlot n = .ok (disks', n')) :
    ∀ disk ∈ disks', BufferBounds disk := by
  intro disk' hdisk'
  have hsame : disk'.asLoaded ∈ disks'.map GptDisk.asLoaded := List.mem_map_of_mem hdisk'
  rw [switchAllGptPairs_sameTables hswitch] at hsame
  obtain ⟨disk, hdisk, hloaded⟩ := List.mem_map.mp hsame
  obtain ⟨handle, haccepted⟩ := loadGptDisks_accepted crc32 hload disk hdisk
  have hheader : disk.asLoaded.primaryHeader = disk'.asLoaded.primaryHeader := by rw [hloaded]
  have hblockIo : disk.asLoaded.blockIo = disk'.asLoaded.blockIo := by rw [hloaded]
  rw [GptDisk.blockIo_asLoaded, GptDisk.blockIo_asLoaded] at hblockIo
  apply bufferBounds_of_le
  · have hsize := haccepted.size_le
    change disk.primaryHeader = disk'.primaryHeader at hheader
    rw [hheader] at hsize
    exact hsize
  · rw [← hblockIo]
    exact le_trans (by decide) (hblock disk hdisk)

theorem loadGptDisk_bufferBounds (crc32 : List Byte → BitVec 32) (devices : ℕ → Store Byte)
    (handle : Handle)
    (hblock : ∀ blockIo, handle.blockIo = .ok (some blockIo) → 512 ≤ blockIo.blockSize.toNat) :
    (loadGptDisk crc32 devices handle).Within InBounds ∧
      ∀ disk, (loadGptDisk crc32 devices handle).result = .ok disk → BufferBounds disk := by
  have hheader (blockIo) (h : handle.blockIo = .ok (some blockIo)) :
      headerCodec.size ≤ blockIo.blockSize.toNat :=
    le_trans (by decide) (hblock blockIo h)
  refine ⟨within_loadGptDisk hheader, fun disk hdisk => ?_⟩
  rw [result_loadGptDisk] at hdisk
  have haccepted := (loadGptDisk_eq_ok crc32).mp hdisk
  exact bufferBounds_of_le haccepted.size_le (hheader _ haccepted.blockIo)

/-- A storage of blocks of the smallest size, with the tables of one pair. -/
theorem loadGptDisk_bufferBounds_xbl :
    (loadGptDisk efiCrc32 (fun _ => xblStore) (smallHandle 0)).Within InBounds ∧
      BufferBounds xblDisk := by
  have hblock (blockIo) (h : (smallHandle 0).blockIo = .ok (some blockIo)) :
      512 ≤ blockIo.blockSize.toNat := by
    cases h
    decide
  obtain ⟨hwithin, hdisks⟩ :=
    loadGptDisk_bufferBounds efiCrc32 (fun _ => xblStore) (smallHandle 0) hblock
  exact ⟨hwithin, hdisks xblDisk (result_loadGptDisk.trans loadGptDisk_xbl)⟩

end ProjectMu.GptBounds
