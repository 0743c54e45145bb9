import ProjectMu.GptLayout

/-!
# The device ranges a commit overwrites

A commit writes four ranges of an accepted storage: two header blocks and two entry
arrays. All four were read by the loader, so they lie on the device. Nothing relates
the block numbers of the two headers, so the ranges may overlap; they are disjoint
exactly when the block intervals of `SeparateBlocks` are.
-/

namespace ProjectMu

open ByteCodec ByteRange

variable (crc32 : List Byte → BitVec 32)

def headerRegion (blockIo : BlockIo) (header : EfiPartitionTableHeader) : Region :=
  ⟨lbaOffset blockIo header.myLBA, blockIo.blockSize.toNat⟩

def entriesRegion (blockIo : BlockIo) (header : EfiPartitionTableHeader) (size : ℕ) : Region :=
  ⟨lbaOffset blockIo header.partitionEntryLBA, size⟩

def GptDisk.regions (disk : GptDisk) : List Region :=
  [headerRegion disk.blockIo disk.primaryHeader,
    entriesRegion disk.blockIo disk.primaryHeader disk.entryArraySize,
    entriesRegion disk.blockIo disk.backupHeader disk.entryArraySize,
    headerRegion disk.blockIo disk.backupHeader]

/-- Every region ends within blocks `0 .. LastBlock`. -/
def BlockIo.Inside (blockIo : BlockIo) (r : Region) : Prop :=
  r.offset + r.size ≤ (blockIo.lastBlock.toNat + 1) * blockIo.blockSize.toNat

def GptDisk.SafeToCommit (disk : GptDisk) : Prop :=
  disk.regions.Pairwise Region.Disjoint ∧ ∀ r ∈ disk.regions, disk.blockIo.Inside r

/-- The blocks an entry array occupies. -/
def arrayBlocks (blockIo : BlockIo) (header : EfiPartitionTableHeader) (size : ℕ) : Set ℕ :=
  Set.Ico header.partitionEntryLBA.toNat
    (header.partitionEntryLBA.toNat + size ⌈/⌉ blockIo.blockSize.toNat)

def onDiskHeader (store : Store Byte) (blockIo : BlockIo) (lba : BitVec 64) :
    EfiPartitionTableHeader :=
  headerCodec.decode (store.read (lbaOffset blockIo lba) headerCodec.size)

def onDiskBackup (store : Store Byte) (blockIo : BlockIo) : EfiPartitionTableHeader :=
  onDiskHeader store blockIo (onDiskHeader store blockIo primaryPartHeaderLba).alternateLBA

/-- Two headers keep their copies apart: the alternate header is not the primary one,
neither array covers a header, and the arrays do not meet. -/
structure SeparateBlocks (blockIo : BlockIo) (primary backup : EfiPartitionTableHeader)
    (size : ℕ) : Prop where
  alternate : primary.alternateLBA.toNat ≠ 1
  primary_header : 1 ∉ arrayBlocks blockIo primary size
  primary_alternate : primary.alternateLBA.toNat ∉ arrayBlocks blockIo primary size
  backup_header : 1 ∉ arrayBlocks blockIo backup size
  backup_alternate : primary.alternateLBA.toNat ∉ arrayBlocks blockIo backup size
  arrays : Disjoint (arrayBlocks blockIo primary size) (arrayBlocks blockIo backup size)

/-- The block numbers stored on a device keep the four ranges of its tables apart. -/
def SeparateOnDisk (store : Store Byte) (blockIo : BlockIo) : Prop :=
  let primary := onDiskHeader store blockIo primaryPartHeaderLba
  SeparateBlocks blockIo primary (onDiskBackup store blockIo)
    (primary.numberOfPartitionEntries.toNat * primary.sizeOfPartitionEntry.toNat)

theorem CopyGeometry.header_inside {blockIo : BlockIo} {header : EfiPartitionTableHeader} {size : ℕ}
    (h : CopyGeometry blockIo header size) : blockIo.Inside (headerRegion blockIo header) :=
  blockIo.readDisk_inside _ _ h.header_readable

theorem CopyGeometry.entries_inside {blockIo : BlockIo} {header : EfiPartitionTableHeader}
    {size : ℕ} (h : CopyGeometry blockIo header size) :
    blockIo.Inside (entriesRegion blockIo header size) :=
  blockIo.readDisk_inside _ _ h.entries_readable

section Accepted

variable {devices : ℕ → Store Byte} {handle : Handle} {disk : GptDisk}

theorem Accepted.primary_geometry (h : Accepted crc32 devices handle disk) :
    CopyGeometry disk.blockIo disk.primaryHeader disk.entryArraySize :=
  ((readsCopy_iff crc32).mp h.primary).1

theorem Accepted.backup_geometry (h : Accepted crc32 devices handle disk) :
    CopyGeometry disk.blockIo disk.backupHeader disk.entryArraySize :=
  ((readsCopy_iff crc32).mp h.backup).1

theorem Accepted.primary_myLBA (h : Accepted crc32 devices handle disk) :
    disk.primaryHeader.myLBA = primaryPartHeaderLba :=
  ((readGptHeader_eq_ok crc32).mp h.primary.1).2.2.2.2.myLBA

theorem Accepted.backup_myLBA (h : Accepted crc32 devices handle disk) :
    disk.backupHeader.myLBA = disk.primaryHeader.alternateLBA :=
  ((readGptHeader_eq_ok crc32).mp h.backup.1).2.2.2.2.myLBA

theorem Accepted.inside (h : Accepted crc32 devices handle disk) :
    ∀ r ∈ disk.regions, disk.blockIo.Inside r := by
  intro r hr
  simp only [GptDisk.regions, List.mem_cons, List.not_mem_nil, or_false] at hr
  rcases hr with rfl | rfl | rfl | rfl
  · exact (h.primary_geometry crc32).header_inside
  · exact (h.primary_geometry crc32).entries_inside
  · exact (h.backup_geometry crc32).entries_inside
  · exact (h.backup_geometry crc32).header_inside

theorem readGptHeader_onDisk {store : Store Byte} {allocated : Bool} {blockIo : BlockIo}
    {lba : BitVec 64} {header : EfiPartitionTableHeader}
    (h : readGptHeader crc32 store allocated blockIo lba = .ok header) :
    onDiskHeader store blockIo lba = header := by
  unfold onDiskHeader
  rw [((readGptHeader_eq_ok crc32).mp h).2.2.2.1, headerCodec.decode_encode]

theorem Accepted.separateOnDisk_iff (h : Accepted crc32 devices handle disk) :
    SeparateOnDisk (devices disk.blockIo.device) disk.blockIo ↔
      SeparateBlocks disk.blockIo disk.primaryHeader disk.backupHeader disk.entryArraySize := by
  have hp := readGptHeader_onDisk crc32 h.primary.1
  have hb := readGptHeader_onDisk crc32 h.backup.1
  unfold SeparateOnDisk onDiskBackup
  rw [hp, hb, disk.entryArraySize_eq]

end Accepted

theorem headers_disjoint_iff {blockIo : BlockIo} {header header' : EfiPartitionTableHeader}
    (hb : 0 < blockIo.blockSize.toNat) :
    (headerRegion blockIo header).Disjoint (headerRegion blockIo header') ↔
      header.myLBA.toNat ≠ header'.myLBA.toNat := by
  have hone : blockIo.blockSize.toNat ⌈/⌉ blockIo.blockSize.toNat = 1 := Region.ceilDiv_self hb
  unfold headerRegion lbaOffset
  rw [Region.disjoint_blocks_iff hb, hone]
  omega

theorem header_entries_disjoint_iff {blockIo : BlockIo}
    {header header' : EfiPartitionTableHeader} {size : ℕ} (hb : 0 < blockIo.blockSize.toNat) :
    (headerRegion blockIo header').Disjoint (entriesRegion blockIo header size) ↔
      header'.myLBA.toNat ∉ arrayBlocks blockIo header size := by
  have hone : blockIo.blockSize.toNat ⌈/⌉ blockIo.blockSize.toNat = 1 := Region.ceilDiv_self hb
  unfold headerRegion entriesRegion lbaOffset arrayBlocks
  rw [Region.disjoint_blocks_iff hb, hone, Set.mem_Ico]
  omega

theorem arrays_disjoint_iff {blockIo : BlockIo} {header header' : EfiPartitionTableHeader}
    {size : ℕ} (hb : 0 < blockIo.blockSize.toNat) (hs : 0 < size) :
    (entriesRegion blockIo header size).Disjoint (entriesRegion blockIo header' size) ↔
      Disjoint (arrayBlocks blockIo header size) (arrayBlocks blockIo header' size) := by
  have hpos : 0 < size ⌈/⌉ blockIo.blockSize.toNat := by
    by_contra hle
    have := (ceilDiv_le_iff_le_mul hb).mp (not_lt.mp hle)
    omega
  unfold entriesRegion lbaOffset arrayBlocks
  rw [Region.disjoint_blocks_iff hb, Set.Ico_disjoint_Ico]
  omega

theorem Accepted.regions_pairwise_iff {devices : ℕ → Store Byte} {handle : Handle}
    {disk : GptDisk} (h : Accepted crc32 devices handle disk) :
    disk.regions.Pairwise Region.Disjoint ↔
      SeparateBlocks disk.blockIo disk.primaryHeader disk.backupHeader disk.entryArraySize := by
  have hb := (h.primary_geometry crc32).header_addressable.1
  have hs := (h.primary_geometry crc32).size_pos
  have hone : disk.primaryHeader.myLBA.toNat = 1 := by rw [h.primary_myLBA crc32]; rfl
  have halt : disk.backupHeader.myLBA.toNat = disk.primaryHeader.alternateLBA.toNat := by
    rw [h.backup_myLBA crc32]
  simp only [GptDisk.regions, List.pairwise_cons, List.mem_cons, List.not_mem_nil, or_false,
    forall_eq_or_imp, forall_eq, false_imp_iff, implies_true, and_true, List.Pairwise.nil,
    headers_disjoint_iff hb, header_entries_disjoint_iff hb, arrays_disjoint_iff hb hs,
    Region.disjoint_comm (s := headerRegion disk.blockIo disk.backupHeader), hone, halt]
  constructor
  · rintro ⟨⟨h1, h2, h3⟩, ⟨h4, h5⟩, h6⟩
    exact ⟨h3.symm, h1, h5, h2, h6, h4⟩
  · intro hsep
    exact ⟨⟨hsep.primary_header, hsep.backup_header, hsep.alternate.symm⟩,
      ⟨hsep.arrays, hsep.primary_alternate⟩, hsep.backup_alternate⟩

/-- The ranges of an accepted storage all lie on the device, so committing to it is safe
exactly when the block numbers in its headers keep them apart. -/
theorem loadGptDisk_safeToCommit_iff {devices : ℕ → Store Byte} {handle : Handle}
    {disk : GptDisk} (h : loadGptDisk crc32 devices handle = .ok disk) :
    disk.SafeToCommit ↔ SeparateOnDisk (devices disk.blockIo.device) disk.blockIo := by
  have hacc := (loadGptDisk_eq_ok crc32).mp h
  rw [hacc.separateOnDisk_iff, ← hacc.regions_pairwise_iff]
  exact ⟨fun hsafe => hsafe.1, fun hpair => ⟨hpair, hacc.inside crc32⟩⟩

theorem smallDisk_apart (device : ℕ) (entry₀ entry₁ : EfiPartitionEntry) :
    (smallDisk crc32 device entry₀ entry₁).regions.Pairwise Region.Disjoint := by
  have hlen : (smallDisk crc32 device entry₀ entry₁).entryArraySize = 256 :=
    length_smallEntries entry₀ entry₁
  simp only [GptDisk.regions, hlen]
  simp [smallDisk, GptLayout.disk, sealHeader, headerRegion, entriesRegion, lbaOffset, smallLayout,
    smallHeader, smallBlockIo, Region.Disjoint, EfiPartitionTableHeader.setCrc32,
    EfiPartitionTableHeader.setEntryArrayCrc32]

theorem loadGptDisk_safeToCommit_iff_small :
    (smallDisk efiCrc32 0 unusedEntry unusedEntry).SafeToCommit ↔
      SeparateOnDisk (smallStore efiCrc32 0 unusedEntry unusedEntry) (smallBlockIo 0) := by
  have hload : loadGptDisk efiCrc32 (fun _ => smallStore efiCrc32 0 unusedEntry unusedEntry)
      (smallHandle 0) = .ok (smallDisk efiCrc32 0 unusedEntry unusedEntry) :=
    loadGptDisk_small efiCrc32 0 unusedEntry unusedEntry rfl
  have hiff := loadGptDisk_safeToCommit_iff efiCrc32 hload
  rwa [smallDisk_blockIo] at hiff

/-- A storage whose primary header names itself as the alternate one. -/
def sharedStore : Store Byte :=
  let layout := smallLayout 0 1 2 unusedEntry unusedEntry
  Store.writeAll (fun _ => 0) (layout.copyPieces efiCrc32 layout.primary)

/-- The loader accepts it, with one block for both headers. -/
theorem loadGptDisk_sharedStore : ∃ disk,
    loadGptDisk efiCrc32 (fun _ => sharedStore) (smallHandle 0) = .ok disk ∧
      ¬ disk.SafeToCommit := by
  have hsound : (smallLayout 0 1 2 unusedEntry unusedEntry).Sound :=
    smallLayout_sound 0 unusedEntry unusedEntry (by decide) (by decide)
  have hheld : (smallLayout 0 1 2 unusedEntry unusedEntry).HeldBy efiCrc32 sharedStore := by
    apply GptLayout.heldBy_of_same efiCrc32 rfl
    have hlen : (smallLayout 0 1 2 unusedEntry unusedEntry).entries.length = 256 :=
      length_smallEntries unusedEntry unusedEntry
    simp only [GptLayout.copyPieces, List.map_cons, List.map_nil, Store.pieceRegion,
      headerCodec.length_encode, hlen]
    simp [smallLayout, smallHeader, smallBlockIo, lbaOffset, size_headerCodec, Region.Disjoint]
  refine ⟨_, GptLayout.loadGptDisk_of_layout efiCrc32 hsound hheld rfl rfl (fun _ => rfl), ?_⟩
  rintro ⟨hpair, -⟩
  have hheaders := (List.pairwise_cons.mp hpair).1 _ (List.mem_cons_of_mem _
    (List.mem_cons_of_mem _ List.mem_cons_self))
  have hblock : 0 < (smallBlockIo 0).blockSize.toNat := by decide
  exact (headers_disjoint_iff hblock).mp hheaders rfl

end ProjectMu
