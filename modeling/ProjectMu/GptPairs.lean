import ProjectMu.GptGeometry
import ProjectMu.GptNames
import ProjectMu.SlotSwitch

/-!
# Detecting and switching the active slot in memory

The partition entries of all disks are addressed by `EntryRef`; `entryRefs` lists them in
the order of the nested loops over disks and entries. `switchAllGptPairs` searches the
arrays it is changing: every pair is looked up in the disks as the pairs before it left
them.
-/

namespace ProjectMu

open ByteCodec ByteRange

def abSlotActiveAttribute : BitVec 64 := 1 <<< 50

abbrev AbSlot := SlotSwitch.Slot

/-- The position of a partition entry: the index of its disk and its index there. -/
structure EntryRef where
  disk : ℕ
  entry : ℕ
  deriving DecidableEq, Repr

namespace GptDisk

variable (disk : GptDisk)

def entryCount : ℕ := disk.primaryHeader.numberOfPartitionEntries.toNat

def entrySize : ℕ := disk.primaryHeader.sizeOfPartitionEntry.toNat

def entries : Bool → List Byte
  | false => disk.primaryEntries
  | true => disk.backupEntries

theorem length_entries (backup : Bool) : (disk.entries backup).length = disk.entryArraySize := by
  cases backup with
  | false => exact disk.length_primaryEntries
  | true => exact disk.length_backupEntries

theorem entryArraySize_eq_mul : disk.entryArraySize = disk.entryCount * disk.entrySize :=
  disk.entryArraySize_eq

def setEntries (backup : Bool) (bytes : List Byte) (h : bytes.length = disk.entryArraySize) :
    GptDisk :=
  match backup with
  | false => { disk with primaryEntries := bytes, length_primaryEntries := h }
  | true => { disk with backupEntries := bytes, length_backupEntries := h }

theorem entry_le {entryIndex : ℕ} (h : entryIndex < disk.entryCount) (backup : Bool) :
    entryIndex * disk.entrySize + entryCodec.size ≤ (disk.entries backup).length := by
  rw [disk.length_entries, disk.entryArraySize_eq_mul]
  exact window_le h disk.entrySize_le

theorem length_splice_entry {entryIndex : ℕ} (h : entryIndex < disk.entryCount) (backup : Bool)
    (entry : EfiPartitionEntry) :
    (splice (disk.entries backup) (entryIndex * disk.entrySize) (entryCodec.encode entry)).length =
      disk.entryArraySize := by
  rw [length_splice, disk.length_entries]
  rw [entryCodec.length_encode]
  exact disk.entry_le h backup

end GptDisk

def getGptEntry (disk : GptDisk) (backup : Bool) (entryIndex : ℕ) : Option EfiPartitionEntry :=
  if disk.entryCount ≤ entryIndex then none
  else some (entryCodec.decode
    (slice (disk.entries backup) (entryIndex * disk.entrySize) entryCodec.size))

/-- A write through the pointer that `getGptEntry` returns. -/
def writeGptEntry (disk : GptDisk) (backup : Bool) (entryIndex : ℕ) (entry : EfiPartitionEntry) :
    GptDisk :=
  if h : entryIndex < disk.entryCount then
    disk.setEntries backup
      (splice (disk.entries backup) (entryIndex * disk.entrySize) (entryCodec.encode entry))
      (disk.length_splice_entry h backup entry)
  else disk

def gptEntryAt (disks : List GptDisk) (backup : Bool) (ref : EntryRef) :
    Option EfiPartitionEntry :=
  (disks[ref.disk]?).bind (fun disk => getGptEntry disk backup ref.entry)

def entryRefs (disks : List GptDisk) : List EntryRef :=
  disks.zipIdx.flatMap (fun (disk, i) => (List.range disk.entryCount).map (fun j => ⟨i, j⟩))

def isActive (entry : EfiPartitionEntry) : Bool := entry.attributes &&& abSlotActiveAttribute != 0

def findGptEntryByName (disk : GptDisk) (partitionName : List (BitVec 16)) :
    Option EfiPartitionEntry :=
  ((List.range disk.entryCount).filterMap (getGptEntry disk false)).find? (fun entry =>
    !isGptEntryUnused entry && isPartitionNameEqual entry partitionName)

def findSlotBEntry (disks : List GptDisk) (entryA : EfiPartitionEntry) : Option EntryRef :=
  (entryRefs disks).find? (fun ref => (gptEntryAt disks false ref).any (fun entryB =>
    !isGptEntryUnused entryB && areEntriesSlotPair entryA entryB))

def bootA : List (BitVec 16) := [0x62, 0x6F, 0x6F, 0x74, 0x5F, 0x61]
def bootB : List (BitVec 16) := [0x62, 0x6F, 0x6F, 0x74, 0x5F, 0x62]

def detectActiveSlotFromBoot : List GptDisk → Except EfiError AbSlot
  | [] => .error .notFound
  | disk :: disks =>
    match findGptEntryByName disk bootA, findGptEntryByName disk bootB with
    | some entryA, some entryB =>
      if isActive entryA = isActive entryB then .error .compromisedData
      else .ok (if isActive entryA then .a else .b)
    | _, _ => detectActiveSlotFromBoot disks

/-- Whether a loop goes on to look for the partner of an entry. -/
def isSlotA (entry : EfiPartitionEntry) : Bool :=
  !isGptEntryUnused entry && doesPartitionNameEndWithSlot entry charA

/-- One iteration of `detectActiveSlotFromPairs`, with the slot found so far. -/
def detectPair (disks : List GptDisk) (found : Option AbSlot) (ref : EntryRef) :
    Except EfiError (Option AbSlot) :=
  match (gptEntryAt disks false ref).filter isSlotA with
  | none => .ok found
  | some entryA =>
    match (findSlotBEntry disks entryA).bind (gptEntryAt disks false) with
    | none => .ok found
    | some entryB =>
      if isActive entryA = isActive entryB then .ok found
      else
        let pairSlot : AbSlot := if isActive entryA then .a else .b
        match found with
        | none => .ok (some pairSlot)
        | some candidateSlot =>
          if candidateSlot ≠ pairSlot then .error .compromisedData else .ok found

def detectActiveSlotFromPairs (disks : List GptDisk) : Except EfiError AbSlot :=
  ((entryRefs disks).foldlM (detectPair disks) none).bind (fun found =>
    match found with
    | none => .error .notFound
    | some slot => .ok slot)

def detectActiveSlot (disks : List GptDisk) : Except EfiError AbSlot :=
  match detectActiveSlotFromBoot disks with
  | .ok slot => .ok slot
  | .error _ => detectActiveSlotFromPairs disks

def setGptEntrySlotState (entry : EfiPartitionEntry) (typeGuid : BitVec 128) (active : Bool) :
    EfiPartitionEntry :=
  { entry with
    partitionTypeGUID := typeGuid
    attributes :=
      if active then entry.attributes ||| abSlotActiveAttribute
      else entry.attributes &&& ~~~abSlotActiveAttribute }

/-- `setGptEntrySlotState` through a pointer into one of the arrays. -/
def setSlotStateAt (backup : Bool) (ref : EntryRef) (typeGuid : BitVec 128) (active : Bool)
    (disks : List GptDisk) : List GptDisk :=
  disks.modify ref.disk (fun disk =>
    match getGptEntry disk backup ref.entry with
    | none => disk
    | some entry =>
      writeGptEntry disk backup ref.entry (setGptEntrySlotState entry typeGuid active))

def markModified (ref : EntryRef) (disks : List GptDisk) : List GptDisk :=
  disks.modify ref.disk (fun disk => { disk with modified := true })

def switchGptPair (disks : List GptDisk) (refA refB : EntryRef) (currentSlot targetSlot : AbSlot) :
    Except EfiError (List GptDisk) :=
  match gptEntryAt disks false refA, gptEntryAt disks false refB,
      gptEntryAt disks true refA, gptEntryAt disks true refB with
  | some entryA, some entryB, some backupEntryA, some backupEntryB =>
    if areEntriesSlotPair entryA entryB = false ∨ areEntryNamesEqual backupEntryA entryA = false ∨
        areEntryNamesEqual backupEntryB entryB = false then .error .compromisedData
    else if isActive entryA = false ∧ isActive entryB = false then .error .notReady
    else if isActive entryA = true ∧ isActive entryB = true then .error .compromisedData
    else if (if isActive entryA then .a else .b : AbSlot) ≠ currentSlot then .error .compromisedData
    else
      let activeGuid :=
        if isActive entryA then entryA.partitionTypeGUID else entryB.partitionTypeGUID
      let inactiveGuid :=
        if isActive entryA then entryB.partitionTypeGUID else entryA.partitionTypeGUID
      let guidA := if targetSlot = .a then activeGuid else inactiveGuid
      let guidB := if targetSlot = .b then activeGuid else inactiveGuid
      let disks := setSlotStateAt false refA guidA (targetSlot = .a) disks
      let disks := setSlotStateAt false refB guidB (targetSlot = .b) disks
      let disks := setSlotStateAt true refA guidA (targetSlot = .a) disks
      let disks := setSlotStateAt true refB guidB (targetSlot = .b) disks
      .ok (markModified refB (markModified refA disks))
  | _, _, _, _ => .error .invalidParameter

/-- One iteration of `switchAllGptPairs` on the disks and the pair count. -/
def switchEntry (currentSlot targetSlot : AbSlot) (state : List GptDisk × ℕ) (ref : EntryRef) :
    Except EfiError (List GptDisk × ℕ) :=
  match (gptEntryAt state.1 false ref).filter isSlotA with
  | none => .ok state
  | some entryA =>
    match findSlotBEntry state.1 entryA with
    | none => .ok state
    | some refB =>
      match switchGptPair state.1 ref refB currentSlot targetSlot with
      | .error .notReady => .ok state
      | .error e => .error e
      | .ok disks => .ok (disks, state.2 + 1)

def switchAllGptPairs (disks : List GptDisk) (currentSlot targetSlot : AbSlot) (pairCount : ℕ) :
    Except EfiError (List GptDisk × ℕ) :=
  (entryRefs disks).foldlM (switchEntry currentSlot targetSlot) (disks, pairCount)

section Xbl

def xblA : List (BitVec 16) := [0x78, 0x62, 0x6C, charUnderscore, charA]
def xblB : List (BitVec 16) := [0x78, 0x62, 0x6C, charUnderscore, charB]

/-- The tables of a storage with the pair `xbl_a` and `xbl_b`, slot A being active. -/
def xblDisk : GptDisk :=
  smallDisk efiCrc32 0 (namedEntry xblA 1 abSlotActiveAttribute) (namedEntry xblB 2 0)

def xblStore : Store Byte :=
  smallStore efiCrc32 0 (namedEntry xblA 1 abSlotActiveAttribute) (namedEntry xblB 2 0)

theorem loadGptDisk_xbl :
    loadGptDisk efiCrc32 (fun _ => xblStore) (smallHandle 0) = .ok xblDisk :=
  loadGptDisk_small efiCrc32 0 _ _ rfl

theorem loadGptDisks_xbl :
    loadGptDisks efiCrc32 (fun _ => xblStore) (.ok [smallHandle 0]) true = .ok [xblDisk] :=
  loadGptDisks_small efiCrc32 0 _ _ rfl

theorem detectActiveSlot_xbl : detectActiveSlot [xblDisk] = .ok .a := by
  decide +kernel

/-- The same disk after a switch to slot B. -/
def xblSwitched : GptDisk :=
  match switchAllGptPairs [xblDisk] .a .b 0 with
  | .ok (disk :: _, _) => disk
  | _ => xblDisk

theorem switchAllGptPairs_xbl : switchAllGptPairs [xblDisk] .a .b 0 = .ok ([xblSwitched], 1) := by
  have heval : ((switchAllGptPairs [xblDisk] .a .b 0).toOption.map
      (fun result => (result.1.length, result.2))) = some (1, 1) := by decide +kernel
  unfold xblSwitched
  cases h : switchAllGptPairs [xblDisk] .a .b 0 with
  | error e =>
    rw [h] at heval
    cases heval
  | ok result =>
    obtain ⟨disks, n⟩ := result
    rw [h, Except.toOption, Option.map_some, Option.some.injEq, Prod.mk.injEq] at heval
    obtain ⟨hlen, hn⟩ := heval
    obtain ⟨disk, hdisk⟩ := List.length_eq_one_iff.mp hlen
    dsimp only at hn hdisk
    rw [hn, hdisk]

end Xbl

end ProjectMu
