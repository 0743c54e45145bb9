import ProjectMu.GptAccepted

/-!
# Formatting a storage

A `GptLayout` is what a partitioning tool decides about a storage: the two headers, without
their checksums, and the entry array both copies share. `Sound` lists what the loader
requires beside the checksums, and `loadGptDisk_of_layout` shows that nothing else is
required: a storage that holds the sealed tables of a sound layout is accepted.
-/

namespace ProjectMu

open ByteCodec ByteRange

variable (crc32 : List Byte → BitVec 32)

structure GptLayout where
  blockIo : BlockIo
  primary : EfiPartitionTableHeader
  backup : EfiPartitionTableHeader
  entries : List Byte

namespace GptLayout

variable (layout : GptLayout)

/-- What the loader checks in one header beside its checksums and its block number. -/
structure SoundHeader (header : EfiPartitionTableHeader) : Prop where
  signature : header.header.signature = efiPtabHeaderId
  headerSize : header.header.headerSize.toNat = headerCodec.size
  geometry : CopyGeometry layout.blockIo header layout.entries.length
  count : header.numberOfPartitionEntries = layout.primary.numberOfPartitionEntries
  size : header.sizeOfPartitionEntry = layout.primary.sizeOfPartitionEntry

structure Sound : Prop where
  physical : layout.blockIo.logicalPartition = false
  present : layout.blockIo.mediaPresent = true
  blockSize_le : headerCodec.size ≤ layout.blockIo.blockSize.toNat
  primary : layout.SoundHeader layout.primary
  backup : layout.SoundHeader layout.backup
  primary_myLBA : layout.primary.myLBA = primaryPartHeaderLba
  backup_myLBA : layout.backup.myLBA = layout.primary.alternateLBA
  alternate_le : layout.primary.alternateLBA.toNat ≤ layout.blockIo.lastBlock.toNat
  entrySize_le : 128 ≤ layout.primary.sizeOfPartitionEntry.toNat
  count_pos : 0 < layout.primary.numberOfPartitionEntries.toNat
  count_le : layout.primary.numberOfPartitionEntries.toNat ≤
    gptMaxEntryArraySize / layout.primary.sizeOfPartitionEntry.toNat
  length_entries : layout.entries.length = layout.primary.numberOfPartitionEntries.toNat *
    layout.primary.sizeOfPartitionEntry.toNat

/-- The tables of a layout with their checksums, as the loader returns them. -/
def disk (h : layout.Sound) : GptDisk where
  blockIo := layout.blockIo
  primaryHeader := sealHeader crc32 layout.primary layout.entries
  backupHeader := sealHeader crc32 layout.backup layout.entries
  originalPrimaryHeader := sealHeader crc32 layout.primary layout.entries
  originalBackupHeader := sealHeader crc32 layout.backup layout.entries
  primaryEntries := layout.entries
  backupEntries := layout.entries
  originalPrimaryEntries := layout.entries
  originalBackupEntries := layout.entries
  entryArraySize := layout.entries.length
  modified := false
  entries_pos := h.count_pos
  entrySize_le := h.entrySize_le
  entryArraySize_eq := h.length_entries
  length_primaryEntries := rfl
  length_backupEntries := rfl
  length_originalPrimaryEntries := rfl
  length_originalBackupEntries := rfl

/-- The device holds both copies of the layout. -/
structure HeldBy (store : Store Byte) : Prop where
  primary : HoldsTable store layout.blockIo (sealHeader crc32 layout.primary layout.entries)
    layout.entries
  backup : HoldsTable store layout.blockIo (sealHeader crc32 layout.backup layout.entries)
    layout.entries

variable {layout}

theorem readsCopy_of_sound (h : layout.Sound) {header : EfiPartitionTableHeader}
    (hheader : layout.SoundHeader header) {store : Store Byte}
    (hholds : HoldsTable store layout.blockIo (sealHeader crc32 header layout.entries)
      layout.entries) :
    ReadsCopy crc32 store layout.blockIo header.myLBA layout.entries.length
      (sealHeader crc32 header layout.entries) layout.entries := by
  have hvalid := validHeader_sealHeader crc32 layout.entries hheader.signature hheader.headerSize
    h.blockSize_le rfl
  obtain ⟨h1, h2, h3, h4, h5⟩ := hheader.geometry
  exact (readsCopy_iff crc32).mpr ⟨⟨h1, h2, h3, h4, h5⟩, rfl, hvalid, rfl, hholds⟩

/-- A storage that holds a sound layout is accepted, and its tables are loaded. -/
theorem loadGptDisk_of_layout (h : layout.Sound) {devices : ℕ → Store Byte} {handle : Handle}
    (hheld : layout.HeldBy crc32 (devices layout.blockIo.device))
    (hio : handle.blockIo = .ok (some layout.blockIo)) (hdiskIo : handle.diskIo = none)
    (hallocates : ∀ buffer, handle.allocates buffer = true) :
    loadGptDisk crc32 devices handle = .ok (layout.disk crc32 h) := by
  have hprimary := readsCopy_of_sound crc32 h h.primary hheld.primary
  have hbackup := readsCopy_of_sound crc32 h h.backup hheld.backup
  rw [h.primary_myLBA] at hprimary
  rw [h.backup_myLBA] at hbackup
  exact (loadGptDisk_eq_ok crc32).mpr ⟨hio, h.physical, h.present, hdiskIo, hallocates,
    h.count_le, h.alternate_le, h.backup.count, h.backup.size, hprimary, hbackup, rfl, rfl, rfl,
    rfl, rfl⟩

end GptLayout

section Storages

variable {devices : ℕ → Store Byte} {handles : List Handle} {disks : List GptDisk}

theorem loadGptDisksFrom_of_forall₂ (loaded : List GptDisk)
    (h : List.Forall₂ (fun handle disk => loadGptDisk crc32 devices handle = .ok disk)
      handles disks) :
    loadGptDisksFrom crc32 devices loaded handles = .ok (loaded ++ disks) := by
  induction h generalizing loaded with
  | nil => rw [loadGptDisksFrom, List.append_nil]
  | cons hload _ ih =>
    rw [loadGptDisksFrom, hload]
    dsimp only
    rw [ih, List.append_assoc, List.singleton_append]

/-- Where every storage is accepted, the disks are loaded in the order of the handles. -/
theorem loadGptDisks_of_forall₂ (hne : disks ≠ [])
    (h : List.Forall₂ (fun handle disk => loadGptDisk crc32 devices handle = .ok disk)
      handles disks) : loadGptDisks crc32 devices (.ok handles) true = .ok disks := by
  refine except_bind_eq_ok.mpr ⟨handles, rfl, except_bind_eq_ok.mpr ⟨disks, ?_, if_neg hne⟩⟩
  exact loadGptDisksFrom_of_forall₂ crc32 [] h

end Storages

namespace GptLayout

variable {layout : GptLayout}

/-- One sealed copy: where its header and its entry array go. -/
def copyPieces (layout : GptLayout) (header : EfiPartitionTableHeader) : List (ℕ × List Byte) :=
  [(lbaOffset layout.blockIo header.partitionEntryLBA, layout.entries),
    (lbaOffset layout.blockIo header.myLBA,
      headerCodec.encode (sealHeader crc32 header layout.entries))]

theorem holdsTable_of_read {header : EfiPartitionTableHeader} {store : Store Byte}
    (h : ∀ piece ∈ layout.copyPieces crc32 header,
      store.read piece.1 piece.2.length = piece.2) :
    HoldsTable store layout.blockIo (sealHeader crc32 header layout.entries) layout.entries := by
  have hheader := h _ (List.mem_cons_of_mem _ List.mem_cons_self)
  rw [headerCodec.length_encode] at hheader
  exact ⟨hheader, h _ List.mem_cons_self⟩

/-- Both copies are held where a tool has written them to separate ranges. -/
theorem heldBy_writeAll (store : Store Byte)
    (hapart : ((layout.copyPieces crc32 layout.backup ++ layout.copyPieces crc32 layout.primary).map
      Store.pieceRegion).Pairwise Region.Disjoint) :
    layout.HeldBy crc32 (store.writeAll
      (layout.copyPieces crc32 layout.backup ++ layout.copyPieces crc32 layout.primary)) := by
  have hread := Store.read_writeAll store hapart
  constructor
  · exact holdsTable_of_read crc32 (fun piece hp => hread piece (List.mem_append_right _ hp))
  · exact holdsTable_of_read crc32 (fun piece hp => hread piece (List.mem_append_left _ hp))

/-- One copy that both headers name is held as both copies. -/
theorem heldBy_of_same (hsame : layout.backup = layout.primary) (store : Store Byte)
    (hapart : ((layout.copyPieces crc32 layout.primary).map Store.pieceRegion).Pairwise
      Region.Disjoint) :
    layout.HeldBy crc32 (store.writeAll (layout.copyPieces crc32 layout.primary)) := by
  have hholds := holdsTable_of_read crc32 (Store.read_writeAll store hapart)
  refine ⟨hholds, ?_⟩
  rw [hsame]
  exact hholds

end GptLayout

section Checksum

/-- One bit of the reflected CRC-32 the boot service computes. -/
def crc32Bit (crc : BitVec 32) : BitVec 32 :=
  if crc.getLsbD 0 then (crc >>> 1) ^^^ 0xEDB88320 else crc >>> 1

def crc32Byte (crc : BitVec 32) (byte : Byte) : BitVec 32 :=
  crc32Bit^[8] (crc ^^^ byte.zeroExtend 32)

def efiCrc32 (data : List Byte) : BitVec 32 := ~~~ data.foldl crc32Byte 0xFFFFFFFF

-- The check value of this CRC: the digits `1` to `9`.
example : efiCrc32 [0x31, 0x32, 0x33, 0x34, 0x35, 0x36, 0x37, 0x38, 0x39] = 0xCBF43926 := by
  decide +kernel

end Checksum

section Small

/-- A storage of five blocks of 512 bytes that refuses exactly the reads beyond its end. -/
def smallBlockIo (device : ℕ) : BlockIo where
  device := device
  logicalPartition := false
  mediaPresent := true
  blockSize := 512
  lastBlock := 4
  readDisk offset size := if offset + size ≤ 2560 then none else some .invalidParameter
  readDisk_inside offset size h := by
    by_contra hlt
    exact nomatch (if_neg hlt).symm.trans h

/-- A header of a table with two entries of 128 bytes. -/
def smallHeader (myLBA alternateLBA partitionEntryLBA : BitVec 64) : EfiPartitionTableHeader where
  header := ⟨efiPtabHeaderId, 0x10000, 92, 0, 0⟩
  myLBA := myLBA
  alternateLBA := alternateLBA
  firstUsableLBA := 5
  lastUsableLBA := 4
  diskGUID := 0
  partitionEntryLBA := partitionEntryLBA
  numberOfPartitionEntries := 2
  sizeOfPartitionEntry := 128
  partitionEntryArrayCRC32 := 0

def namedEntry (name : List (BitVec 16)) (typeGuid : BitVec 128) (attributes : BitVec 64) :
    EfiPartitionEntry where
  partitionTypeGUID := typeGuid
  uniquePartitionGUID := 0
  startingLBA := 5
  endingLBA := 5
  attributes := attributes
  partitionName := ⟨(name ++ List.replicate gptMaxNameLength 0).take gptMaxNameLength, by simp⟩

def unusedEntry : EfiPartitionEntry := namedEntry [] 0 0

/-- Header and array at the blocks 1 and 2, their copies wherever the headers say. -/
def smallLayout (device : ℕ) (alternateLBA backupEntryLBA : BitVec 64)
    (entry₀ entry₁ : EfiPartitionEntry) : GptLayout where
  blockIo := smallBlockIo device
  primary := smallHeader 1 alternateLBA 2
  backup := smallHeader alternateLBA 1 backupEntryLBA
  entries := entryCodec.encode entry₀ ++ entryCodec.encode entry₁

variable (device : ℕ) (entry₀ entry₁ : EfiPartitionEntry)

theorem length_smallEntries :
    (entryCodec.encode entry₀ ++ entryCodec.encode entry₁).length = 256 := by
  rw [List.length_append, length_encode_entry, length_encode_entry]

theorem smallGeometry {myLBA alternateLBA partitionEntryLBA : BitVec 64} (hmy : myLBA.toNat ≤ 4)
    (hentries : partitionEntryLBA.toNat ≤ 4) :
    CopyGeometry (smallBlockIo device) (smallHeader myLBA alternateLBA partitionEntryLBA) 256 := by
  have hblock : (smallBlockIo device).blockSize.toNat = 512 := rfl
  have hread {offset size : ℕ} (h : offset + size ≤ 2560) :
      (smallBlockIo device).readDisk offset size = none := if_pos h
  refine ⟨⟨by omega, ?_⟩, ⟨by omega, ?_⟩, hread ?_, hread ?_, by omega⟩ <;>
    simp only [lbaOffset, smallHeader, hblock] <;> omega

theorem smallLayout_sound {alternateLBA backupEntryLBA : BitVec 64} (ha : alternateLBA.toNat ≤ 4)
    (hb : backupEntryLBA.toNat ≤ 4) :
    (smallLayout device alternateLBA backupEntryLBA entry₀ entry₁).Sound := by
  have hlen : (smallLayout device alternateLBA backupEntryLBA entry₀ entry₁).entries.length = 256 :=
    length_smallEntries entry₀ entry₁
  have hheader {myLBA alternateLBA' partitionEntryLBA : BitVec 64} (hmy : myLBA.toNat ≤ 4)
      (hentries : partitionEntryLBA.toNat ≤ 4) :
      (smallLayout device alternateLBA backupEntryLBA entry₀ entry₁).SoundHeader
        (smallHeader myLBA alternateLBA' partitionEntryLBA) :=
    ⟨rfl, rfl, hlen ▸ smallGeometry device hmy hentries, rfl, rfl⟩
  exact ⟨rfl, rfl, (by decide : 92 ≤ 512), hheader (by decide) (by decide), hheader ha hb, rfl, rfl,
    ha, (by decide : 128 ≤ 128), (by decide : 0 < 2), (by decide : 2 ≤ 0x100000 / 128), hlen⟩

/-- The backup array at block 3 and the backup header at block 4. -/
def smallDisk : GptDisk := (smallLayout device 4 3 entry₀ entry₁).disk crc32
  (smallLayout_sound device entry₀ entry₁ (by decide) (by decide))

@[simp] theorem smallDisk_blockIo :
    (smallDisk crc32 device entry₀ entry₁).blockIo = smallBlockIo device := rfl

/-- A new storage with the tables of `smallDisk`. -/
def smallStore : Store Byte :=
  let layout := smallLayout device 4 3 entry₀ entry₁
  Store.writeAll (fun _ => 0)
    (layout.copyPieces crc32 layout.backup ++ layout.copyPieces crc32 layout.primary)

def smallHandle : Handle := ⟨.ok (some (smallBlockIo device)), none, fun _ => true⟩

theorem smallStore_heldBy : (smallLayout device 4 3 entry₀ entry₁).HeldBy crc32
    (smallStore crc32 device entry₀ entry₁) := by
  apply GptLayout.heldBy_writeAll
  have hlen : (smallLayout device 4 3 entry₀ entry₁).entries.length = 256 :=
    length_smallEntries entry₀ entry₁
  simp only [GptLayout.copyPieces, List.map_append, List.map_cons, List.map_nil, Store.pieceRegion,
    headerCodec.length_encode, hlen]
  simp [smallLayout, smallHeader, smallBlockIo, lbaOffset, size_headerCodec, Region.Disjoint]

theorem loadGptDisk_small {devices : ℕ → Store Byte}
    (h : devices device = smallStore crc32 device entry₀ entry₁) :
    loadGptDisk crc32 devices (smallHandle device) = .ok (smallDisk crc32 device entry₀ entry₁) := by
  refine GptLayout.loadGptDisk_of_layout crc32 _ ?_ rfl rfl (fun _ => rfl)
  change GptLayout.HeldBy crc32 _ (devices device)
  rw [h]
  exact smallStore_heldBy crc32 device entry₀ entry₁

theorem loadGptDisks_small {devices : ℕ → Store Byte}
    (h : devices device = smallStore crc32 device entry₀ entry₁) :
    loadGptDisks crc32 devices (.ok [smallHandle device]) true =
      .ok [smallDisk crc32 device entry₀ entry₁] :=
  loadGptDisks_of_forall₂ crc32 (List.cons_ne_nil _ _)
    (List.Forall₂.cons (loadGptDisk_small crc32 device entry₀ entry₁ h) List.Forall₂.nil)

end Small

end ProjectMu
