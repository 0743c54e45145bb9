import ProjectMu.GptLoad

/-!
# What an accepted storage looks like

`loadGptDisk_eq_ok` turns the loader into conditions on the device: both copies are
read back by `ReadsCopy`, that is, their headers and entry arrays lie on the device
where the headers say and all checksums agree.
-/

namespace ProjectMu

open ByteCodec ByteRange

variable (crc32 : List Byte → BitVec 32)

/-- The byte offset of a block, where it is representable. -/
def lbaOffset (blockIo : BlockIo) (lba : BitVec 64) : ℕ := lba.toNat * blockIo.blockSize.toNat

def Addressable (blockIo : BlockIo) (lba : BitVec 64) : Prop :=
  0 < blockIo.blockSize.toNat ∧ lbaOffset blockIo lba < 2 ^ 64

theorem gptLbaToOffset_eq_ok {blockIo : BlockIo} {lba offset : BitVec 64} :
    gptLbaToOffset blockIo lba = .ok offset ↔
      Addressable blockIo lba ∧ offset.toNat = lbaOffset blockIo lba := by
  have hzero : blockIo.blockSize = 0 ↔ blockIo.blockSize.toNat = 0 := by
    rw [← BitVec.toNat_inj]
    rfl
  unfold gptLbaToOffset Addressable lbaOffset
  by_cases hb : blockIo.blockSize.toNat = 0
  · simp [hzero.mpr hb]
  rw [if_neg (fun h => hb (hzero.mp h))]
  have hpos : 0 < blockIo.blockSize.toNat := Nat.pos_of_ne_zero hb
  have hdiv : lba.toNat ≤ (2 ^ 64 - 1) / blockIo.blockSize.toNat ↔
      lba.toNat * blockIo.blockSize.toNat < 2 ^ 64 := by
    rw [Nat.le_div_iff_mul_le hpos]
    omega
  by_cases hlt : lba.toNat * blockIo.blockSize.toNat < 2 ^ 64
  · have hmul : (lba * blockIo.blockSize.zeroExtend 64).toNat =
        lba.toNat * blockIo.blockSize.toNat := by
      have hs := blockIo.blockSize.isLt
      rw [BitVec.toNat_mul, BitVec.toNat_setWidth, Nat.mod_eq_of_lt (a := blockIo.blockSize.toNat)
        (by omega), Nat.mod_eq_of_lt hlt]
    rw [if_neg (not_lt.mpr (hdiv.mpr hlt)), Except.ok.injEq, ← BitVec.toNat_inj, hmul]
    exact ⟨fun h => ⟨⟨hpos, hlt⟩, h.symm⟩, fun h => h.2.symm⟩
  · rw [if_pos (not_le.mp (fun h => hlt (hdiv.mp h)))]
    exact ⟨fun h => (nomatch h), fun h => absurd h.1.2 hlt⟩

theorem exists_gptLbaToOffset {blockIo : BlockIo} {lba : BitVec 64} (h : Addressable blockIo lba) :
    ∃ offset, gptLbaToOffset blockIo lba = .ok offset ∧ offset.toNat = lbaOffset blockIo lba := by
  have hlt : (BitVec.ofNat 64 (lbaOffset blockIo lba)).toNat = lbaOffset blockIo lba := by
    rw [BitVec.toNat_ofNat, Nat.mod_eq_of_lt h.2]
  exact ⟨_, gptLbaToOffset_eq_ok.mpr ⟨h, hlt⟩, hlt⟩

/-- The header with its own checksum field cleared, as both CRC computations see it. -/
def clearedHeader (header : EfiPartitionTableHeader) : List Byte :=
  headerCodec.encode (header.setCrc32 0)

structure ValidHeader (header : EfiPartitionTableHeader) (lba : BitVec 64) (blockSize : ℕ) :
    Prop where
  signature : header.header.signature = efiPtabHeaderId
  headerSize : header.header.headerSize.toNat = headerCodec.size
  blockSize_le : headerCodec.size ≤ blockSize
  myLBA : header.myLBA = lba
  crc : crc32 (clearedHeader header) = header.header.crc32

theorem calculateCrc32_of_ne_nil {data : List Byte} (h : data ≠ []) :
    calculateCrc32 crc32 data = .ok (crc32 data) := if_neg h

theorem clearedHeader_take {header : EfiPartitionTableHeader}
    (h : header.header.headerSize.toNat = headerCodec.size) :
    (clearedHeader header).take header.header.headerSize.toNat = clearedHeader header := by
  rw [h, clearedHeader, List.take_of_length_le (le_of_eq (headerCodec.length_encode _))]

theorem clearedHeader_ne_nil (header : EfiPartitionTableHeader) : clearedHeader header ≠ [] := by
  apply List.ne_nil_of_length_pos
  rw [clearedHeader, length_encode_header]
  norm_num

theorem validateGptHeader_eq_ok {header : EfiPartitionTableHeader} {lba : BitVec 64}
    {blockSize : ℕ} : validateGptHeader crc32 header lba blockSize = .ok () ↔
      ValidHeader crc32 header lba blockSize := by
  unfold validateGptHeader
  constructor
  · intro h
    split_ifs at h with hsig hsize hlba
    rw [not_or, not_not] at hsize
    have htake := clearedHeader_take hsize.1
    change (calculateCrc32 crc32 ((clearedHeader header).take _)).bind _ = _ at h
    rw [htake, calculateCrc32_of_ne_nil crc32 (clearedHeader_ne_nil header)] at h
    simp only [Except.bind] at h
    split_ifs at h with hcrc
    exact ⟨not_not.mp hsig, hsize.1, hsize.1 ▸ not_lt.mp hsize.2, not_not.mp hlba,
      not_not.mp hcrc⟩
  · intro h
    have htake := clearedHeader_take h.headerSize
    rw [if_neg (not_not.mpr h.signature), if_neg, if_neg (not_not.mpr h.myLBA)]
    · change (calculateCrc32 crc32 ((clearedHeader header).take _)).bind _ = _
      rw [htake, calculateCrc32_of_ne_nil crc32 (clearedHeader_ne_nil header)]
      exact if_neg (not_not.mpr h.crc)
    · rw [not_or, not_not]
      exact ⟨h.headerSize, not_lt.mpr (h.headerSize ▸ h.blockSize_le)⟩

/-- A header with both checksums brought up to date for an entry array. -/
def sealHeader (header : EfiPartitionTableHeader) (entries : List Byte) :
    EfiPartitionTableHeader :=
  let counted := header.setEntryArrayCrc32 (crc32 entries)
  counted.setCrc32 (crc32 (clearedHeader counted))

theorem validHeader_sealHeader {header : EfiPartitionTableHeader} {lba : BitVec 64}
    {blockSize : ℕ} (entries : List Byte) (hsig : header.header.signature = efiPtabHeaderId)
    (hsize : header.header.headerSize.toNat = headerCodec.size)
    (hle : headerCodec.size ≤ blockSize) (hlba : header.myLBA = lba) :
    ValidHeader crc32 (sealHeader crc32 header entries) lba blockSize :=
  ⟨hsig, hsize, hle, hlba, rfl⟩

/-- Sealing a valid header for the entry array it already describes changes nothing. -/
theorem sealHeader_eq_self {header : EfiPartitionTableHeader} {entries : List Byte}
    {lba : BitVec 64} {blockSize : ℕ} (hv : ValidHeader crc32 header lba blockSize)
    (hcrc : crc32 entries = header.partitionEntryArrayCRC32) :
    sealHeader crc32 header entries = header := by
  unfold sealHeader
  rw [hcrc, EfiPartitionTableHeader.setEntryArrayCrc32_self]
  dsimp only
  rw [hv.crc, EfiPartitionTableHeader.setCrc32_self]

theorem validateGptEntryArray_eq_ok {header : EfiPartitionTableHeader} {entries : List Byte} :
    validateGptEntryArray crc32 header entries = .ok () ↔
      entries ≠ [] ∧ crc32 entries = header.partitionEntryArrayCRC32 := by
  unfold validateGptEntryArray calculateCrc32
  by_cases he : entries = []
  · simp [he, Except.bind]
  · simp only [he, if_false, Except.bind, ne_eq, not_false_iff, true_and]
    split_ifs with hc <;> simp_all

/-- The device holds a header at the block it names, and an entry array at the block the
header names. -/
structure HoldsTable (store : Store Byte) (blockIo : BlockIo) (header : EfiPartitionTableHeader)
    (entries : List Byte) : Prop where
  headerBytes : store.read (lbaOffset blockIo header.myLBA) headerCodec.size =
    headerCodec.encode header
  entryBytes : store.read (lbaOffset blockIo header.partitionEntryLBA) entries.length = entries

/-- The loader's own functions read a valid copy whose header lies at `lba`. -/
def ReadsCopy (store : Store Byte) (blockIo : BlockIo) (lba : BitVec 64) (size : ℕ)
    (header : EfiPartitionTableHeader) (entries : List Byte) : Prop :=
  readGptHeader crc32 store true blockIo lba = .ok header ∧
    readGptEntryArray crc32 store true blockIo header size = .ok entries

/-- Everything about a readable copy that does not depend on the device's contents. -/
structure CopyGeometry (blockIo : BlockIo) (header : EfiPartitionTableHeader) (size : ℕ) :
    Prop where
  header_addressable : Addressable blockIo header.myLBA
  entries_addressable : Addressable blockIo header.partitionEntryLBA
  header_readable : blockIo.readDisk (lbaOffset blockIo header.myLBA)
    blockIo.blockSize.toNat = none
  entries_readable : blockIo.readDisk (lbaOffset blockIo header.partitionEntryLBA) size = none
  size_pos : 0 < size

theorem readGptHeader_eq_ok {store : Store Byte} {allocated : Bool} {blockIo : BlockIo}
    {lba : BitVec 64} {header : EfiPartitionTableHeader} :
    readGptHeader crc32 store allocated blockIo lba = .ok header ↔
      allocated = true ∧ Addressable blockIo lba ∧
        blockIo.readDisk (lbaOffset blockIo lba) blockIo.blockSize.toNat = none ∧
        store.read (lbaOffset blockIo lba) headerCodec.size = headerCodec.encode header ∧
        ValidHeader crc32 header lba blockIo.blockSize.toNat := by
  unfold readGptHeader
  cases allocated with
  | false => simp
  | true =>
    simp only [Bool.true_eq_false, if_false, true_and, except_bind_eq_ok, readDisk_eq_ok]
    constructor
    · rintro ⟨offset, ho, _, ⟨hr, rfl⟩, _, hval, hb⟩
      obtain ⟨ha, hoff⟩ := gptLbaToOffset_eq_ok.mp ho
      have hv := (validateGptHeader_eq_ok crc32).mp hval
      cases hb
      rw [hoff] at hr hv ⊢
      rw [Store.slice_read _ _ _ _ _ (by have := hv.blockSize_le; omega), Nat.add_zero] at hv ⊢
      exact ⟨ha, hr, (headerCodec.encode_decode _ (by simp)).symm, hv⟩
    · rintro ⟨ha, hr, hread, hv⟩
      obtain ⟨offset, ho, hoff⟩ := exists_gptLbaToOffset ha
      have hdec : headerCodec.decode (slice (store.read offset.toNat blockIo.blockSize.toNat) 0
          headerCodec.size) = header := by
        rw [Store.slice_read _ _ _ _ _ (by have := hv.blockSize_le; omega), Nat.add_zero, hoff,
          hread, headerCodec.decode_encode]
      refine ⟨offset, ho, _, ⟨hoff ▸ hr, rfl⟩, (), ?_, ?_⟩
      · rw [hdec]
        exact (validateGptHeader_eq_ok crc32).mpr hv
      · rw [hdec]

theorem readsCopy_iff {store : Store Byte} {blockIo : BlockIo} {lba : BitVec 64} {size : ℕ}
    {header : EfiPartitionTableHeader} {entries : List Byte} :
    ReadsCopy crc32 store blockIo lba size header entries ↔
      CopyGeometry blockIo header size ∧ entries.length = size ∧
        ValidHeader crc32 header lba blockIo.blockSize.toNat ∧
        crc32 entries = header.partitionEntryArrayCRC32 ∧
        HoldsTable store blockIo header entries := by
  unfold ReadsCopy
  rw [readGptHeader_eq_ok, readGptEntryArray_eq_ok]
  simp only [true_and]
  constructor
  · rintro ⟨⟨ha, hr, hread, hv⟩, offset, ho, hre, hent, hve⟩
    obtain ⟨hea, hoff⟩ := gptLbaToOffset_eq_ok.mp ho
    obtain ⟨hne, hcrc⟩ := (validateGptEntryArray_eq_ok crc32).mp hve
    have hlen : entries.length = size := by rw [hent, Store.length_read]
    have hlba := hv.myLBA
    subst hlba
    refine ⟨⟨ha, hea, hr, hoff ▸ hre, ?_⟩, hlen, hv, hcrc, hread, ?_⟩
    · rw [← hlen]
      exact List.length_pos_of_ne_nil hne
    · rw [hlen, ← hoff]
      exact hent.symm
  · rintro ⟨hg, hlen, hv, hcrc, hh⟩
    have hlba := hv.myLBA
    subst hlba
    obtain ⟨offset, ho, hoff⟩ := exists_gptLbaToOffset hg.entries_addressable
    have hent := hh.entryBytes
    rw [hlen, ← hoff] at hent
    refine ⟨⟨hg.header_addressable, hg.header_readable, hh.headerBytes, hv⟩, offset, ho, ?_, hent.symm,
      ?_⟩
    · rw [hoff]
      exact hg.entries_readable
    · refine (validateGptEntryArray_eq_ok crc32).mpr ⟨?_, hcrc⟩
      apply List.ne_nil_of_length_pos
      rw [hlen]
      exact hg.size_pos

/-- The conditions under which `loadGptDisk` returns `disk`. -/
structure Accepted (devices : ℕ → Store Byte) (handle : Handle) (disk : GptDisk) : Prop where
  blockIo : handle.blockIo = .ok (some disk.blockIo)
  physical : disk.blockIo.logicalPartition = false
  present : disk.blockIo.mediaPresent = true
  diskIo : handle.diskIo = none
  allocates : ∀ buffer, handle.allocates buffer = true
  size_le : disk.primaryHeader.numberOfPartitionEntries.toNat ≤
    gptMaxEntryArraySize / disk.primaryHeader.sizeOfPartitionEntry.toNat
  alternate_le : disk.primaryHeader.alternateLBA.toNat ≤ disk.blockIo.lastBlock.toNat
  same_count : disk.backupHeader.numberOfPartitionEntries =
    disk.primaryHeader.numberOfPartitionEntries
  same_size : disk.backupHeader.sizeOfPartitionEntry = disk.primaryHeader.sizeOfPartitionEntry
  primary : ReadsCopy crc32 (devices disk.blockIo.device) disk.blockIo primaryPartHeaderLba
    disk.entryArraySize disk.primaryHeader disk.primaryEntries
  backup : ReadsCopy crc32 (devices disk.blockIo.device) disk.blockIo
    disk.primaryHeader.alternateLBA disk.entryArraySize disk.backupHeader disk.backupEntries
  originalPrimaryHeader : disk.originalPrimaryHeader = disk.primaryHeader
  originalBackupHeader : disk.originalBackupHeader = disk.backupHeader
  originalPrimaryEntries : disk.originalPrimaryEntries = disk.primaryEntries
  originalBackupEntries : disk.originalBackupEntries = disk.backupEntries
  unmodified : disk.modified = false

theorem loadGptEntryArrays_eq_ok {store : Store Byte} {handle : Handle} {blockIo : BlockIo}
    {primary backup : EfiPartitionTableHeader} {hn hs hle} {disk : GptDisk} :
    loadGptEntryArrays crc32 store handle blockIo primary backup hn hs hle = .ok disk ↔
      disk.blockIo = blockIo ∧ disk.primaryHeader = primary ∧ disk.backupHeader = backup ∧
      handle.allocates .originalPrimaryEntries = true ∧
      handle.allocates .originalBackupEntries = true ∧
      readGptEntryArray crc32 store (handle.allocates .primaryEntries) blockIo primary
        disk.entryArraySize = .ok disk.primaryEntries ∧
      readGptEntryArray crc32 store (handle.allocates .backupEntries) blockIo backup
        disk.entryArraySize = .ok disk.backupEntries ∧
      disk.originalPrimaryHeader = primary ∧ disk.originalBackupHeader = backup ∧
      disk.originalPrimaryEntries = disk.primaryEntries ∧
      disk.originalBackupEntries = disk.backupEntries ∧ disk.modified = false := by
  have hsize := entryArraySize_toNat hs hle
  unfold loadGptEntryArrays
  constructor
  · intro h
    dsimp only at h
    split at h
    · cases h
    · split at h
      · cases h
      · rename_i primaryEntries hp backupEntries hb
        split_ifs at h with halloc
        rw [not_or, Bool.not_eq_false, Bool.not_eq_false] at halloc
        cases h
        exact ⟨rfl, rfl, rfl, halloc.1, halloc.2, hp, hb, rfl, rfl, rfl, rfl, rfl⟩
  · rintro ⟨rfl, rfl, rfl, hap, hab, hp, hb, hop, hob, hep, heb, hm⟩
    rw [disk.entryArraySize_eq, ← hsize] at hp hb
    dsimp only
    split
    · rename_i e he
      rw [hp] at he
      cases he
    · rename_i primaryEntries hpe
      cases hp.symm.trans hpe
      split
      · rename_i e he
        rw [hb] at he
        cases he
      · rename_i backupEntries hbe
        cases hb.symm.trans hbe
        rw [if_neg (by simp [hap, hab]), Except.ok.injEq]
        ext1 <;> simp only [hop, hob, hep, heb, hm]
        rw [hsize, disk.entryArraySize_eq]

theorem loadGptTables_eq_ok {store : Store Byte} {handle : Handle} {blockIo : BlockIo}
    {disk : GptDisk} : loadGptTables crc32 store handle blockIo = .ok disk ↔
      disk.blockIo = blockIo ∧
      readGptHeader crc32 store (handle.allocates .primaryBlock) blockIo primaryPartHeaderLba =
        .ok disk.primaryHeader ∧
      disk.primaryHeader.numberOfPartitionEntries.toNat ≤
        gptMaxEntryArraySize / disk.primaryHeader.sizeOfPartitionEntry.toNat ∧
      disk.primaryHeader.alternateLBA.toNat ≤ blockIo.lastBlock.toNat ∧
      readGptHeader crc32 store (handle.allocates .backupBlock) blockIo
        disk.primaryHeader.alternateLBA = .ok disk.backupHeader ∧
      disk.backupHeader.numberOfPartitionEntries = disk.primaryHeader.numberOfPartitionEntries ∧
      disk.backupHeader.sizeOfPartitionEntry = disk.primaryHeader.sizeOfPartitionEntry ∧
      ∃ hn hs hle, loadGptEntryArrays crc32 store handle blockIo disk.primaryHeader
        disk.backupHeader hn hs hle = .ok disk := by
  unfold loadGptTables
  simp only [except_bind_eq_ok]
  constructor
  · rintro ⟨primary, hp, h⟩
    split_ifs at h with hbad hzero
    obtain ⟨backup, hb, h⟩ := except_bind_eq_ok.mp h
    split_ifs at h with hdiff
    rw [not_or, not_not, not_not] at hdiff
    obtain ⟨rfl, rfl, rfl, _⟩ := (loadGptEntryArrays_eq_ok crc32).mp h
    exact ⟨rfl, hp, by omega, by omega, hb, hdiff.1, hdiff.2, _, _, _, h⟩
  · rintro ⟨rfl, hp, hle, hlast, hb, hc, hs, hn', hs', hle', h⟩
    have hsize := entryArraySize_toNat hs' hle'
    refine ⟨disk.primaryHeader, hp, ?_⟩
    have hentry := size_entryCodec
    rw [dif_neg (by omega), if_neg]
    · refine except_bind_eq_ok.mpr ⟨disk.backupHeader, hb, ?_⟩
      rw [if_neg (by simp [hc, hs])]
      exact h
    · intro hzero
      rw [hzero] at hsize
      have hpos := Nat.mul_pos hn' (Nat.lt_of_lt_of_le (by norm_num) hs')
      change 0 = _ at hsize
      omega

/-- The loader accepts a storage exactly under the conditions of `Accepted`. -/
theorem loadGptDisk_eq_ok {devices : ℕ → Store Byte} {handle : Handle} {disk : GptDisk} :
    loadGptDisk crc32 devices handle = .ok disk ↔ Accepted crc32 devices handle disk := by
  have halloc {store : Store Byte} {a : Bool} {blockIo : BlockIo} {lba : BitVec 64}
      {header : EfiPartitionTableHeader}
      (h : readGptHeader crc32 store a blockIo lba = .ok header) : a = true :=
    ((readGptHeader_eq_ok crc32).mp h).1
  constructor
  · intro h
    unfold loadGptDisk at h
    split at h
    · cases h
    · cases h
    · rename_i blockIo hio
      split_ifs at h with husable hdisk
      obtain ⟨rfl, hp, hle, hlast, hb, hc, hs, hn', hs', hle', harr⟩ :=
        (loadGptTables_eq_ok crc32).mp h
      obtain ⟨-, -, -, hap, hab, hpe, hbe, hop, hob, hep, heb, hm⟩ :=
        (loadGptEntryArrays_eq_ok crc32).mp harr
      have hpa := ((readGptEntryArray_eq_ok crc32).mp hpe).1
      have hba := ((readGptEntryArray_eq_ok crc32).mp hbe).1
      have hall : ∀ buffer, handle.allocates buffer = true := by
        intro buffer
        cases buffer with
        | primaryBlock => exact halloc hp
        | backupBlock => exact halloc hb
        | primaryEntries => exact hpa
        | backupEntries => exact hba
        | originalPrimaryEntries => exact hap
        | originalBackupEntries => exact hab
      rw [not_or, Bool.not_eq_true, Bool.not_eq_false] at husable
      rw [hall] at hp hb hpe hbe
      exact ⟨hio, husable.1, husable.2, by simpa using hdisk, hall, hle, hlast, hc, hs,
        ⟨hp, hpe⟩, ⟨hb, hbe⟩, hop, hob, hep, heb, hm⟩
  · intro h
    unfold loadGptDisk
    rw [h.blockIo]
    dsimp only
    rw [if_neg (by simp [h.physical, h.present]), if_neg (by simp [h.diskIo])]
    refine (loadGptTables_eq_ok crc32).mpr ⟨rfl, ?_, h.size_le, h.alternate_le, ?_, h.same_count,
      h.same_size, disk.entries_pos, disk.entrySize_le, h.size_le, ?_⟩
    · rw [h.allocates]
      exact h.primary.1
    · rw [h.allocates]
      exact h.backup.1
    · refine (loadGptEntryArrays_eq_ok crc32).mpr ⟨rfl, rfl, rfl, h.allocates _, h.allocates _,
        ?_, ?_, h.originalPrimaryHeader, h.originalBackupHeader, h.originalPrimaryEntries,
        h.originalBackupEntries, h.unmodified⟩
      · rw [h.allocates]
        exact h.primary.2
      · rw [h.allocates]
        exact h.backup.2

theorem loadGptDisksFrom_accepted {devices : ℕ → Store Byte} {handles : List Handle}
    {loaded disks : List GptDisk}
    (h : loadGptDisksFrom crc32 devices loaded handles = .ok disks) :
    ∀ disk ∈ disks, disk ∈ loaded ∨ ∃ handle ∈ handles, Accepted crc32 devices handle disk := by
  induction handles generalizing loaded with
  | nil =>
    cases h
    exact fun disk hd => Or.inl hd
  | cons handle handles ih =>
    intro disk hd
    simp only [loadGptDisksFrom] at h
    split at h
    · rename_i d hload
      rcases ih h disk hd with hmem | ⟨handle', hmem, hacc⟩
      · rcases List.mem_append.mp hmem with hold | hnew
        · exact Or.inl hold
        · have he : disk = d := List.mem_singleton.mp hnew
          subst he
          exact Or.inr ⟨handle, List.mem_cons_self, (loadGptDisk_eq_ok crc32).mp hload⟩
      · exact Or.inr ⟨handle', List.mem_cons_of_mem _ hmem, hacc⟩
    · cases h
    · rcases ih h disk hd with hmem | ⟨handle', hmem, hacc⟩
      · exact Or.inl hmem
      · exact Or.inr ⟨handle', List.mem_cons_of_mem _ hmem, hacc⟩

/-- Every disk in the result of `loadGptDisks` was accepted on one of the handles. -/
theorem loadGptDisks_accepted {devices : ℕ → Store Byte}
    {handles : Except EfiError (List Handle)} {allocated : Bool} {disks : List GptDisk}
    (h : loadGptDisks crc32 devices handles allocated = .ok disks) :
    ∀ disk ∈ disks, ∃ handle, Accepted crc32 devices handle disk := by
  obtain ⟨found, -, hdisks⟩ := except_bind_eq_ok.mp h
  cases allocated with
  | false => cases hdisks
  | true =>
    obtain ⟨loaded, hfrom, hret⟩ := except_bind_eq_ok.mp hdisks
    by_cases hnil : loaded = []
    · rw [if_pos hnil] at hret
      cases hret
    · rw [if_neg hnil] at hret
      cases hret
      intro disk hd
      rcases loadGptDisksFrom_accepted crc32 hfrom disk hd with hmem | ⟨handle, _, hacc⟩
      · cases hmem
      · exact ⟨handle, hacc⟩

end ProjectMu
