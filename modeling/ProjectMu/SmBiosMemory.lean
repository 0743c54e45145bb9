import Mathlib.Tactic

/-!
# The memory records of the SMBIOS tables

The capacity of the memory array (type 16), the size of the memory device (type 17) and the
mapped range (type 19) are written in coarse units with escape values to wider fields. Decoded
again they show the memory of the platform, except that `updateSmBiosType17` stores a size in
bytes into the field for megabytes, and that an empty memory has no last byte.
-/

namespace ProjectMu

structure SmBiosType16 where
  maximumCapacity : BitVec 32
  extendedMaximumCapacity : BitVec 64
  deriving DecidableEq, Repr

structure SmBiosType17 where
  size : BitVec 16
  extendedSize : BitVec 32
  volatileSize : BitVec 64
  deriving DecidableEq, Repr

structure SmBiosType19 where
  startingAddress : BitVec 32
  endingAddress : BitVec 32
  extendedStartingAddress : BitVec 64
  extendedEndingAddress : BitVec 64
  deriving DecidableEq, Repr

def smBiosType16 : SmBiosType16 := ⟨0, 0⟩
def smBiosType17 : SmBiosType17 := ⟨0xFFFF, 0, 0xFFFFFFFFFFFFFFFF⟩
def smBiosType19 : SmBiosType19 := ⟨0, 0, 0, 0⟩

def size1KB : BitVec 64 := 0x400
def size1MB : BitVec 64 := 0x100000
def size32GB : BitVec 64 := 0x800000000
def size2TB : BitVec 64 := 0x20000000000
def size4TB : BitVec 64 := 0x40000000000

def updateSmBiosType16 (memorySize : BitVec 64) (table : SmBiosType16) : SmBiosType16 :=
  if memorySize < size2TB then
    { table with maximumCapacity := (memorySize / size1KB).setWidth 32 }
  else
    { table with
      maximumCapacity := 0x80000000
      extendedMaximumCapacity := memorySize }

def updateSmBiosType17 (memorySize : BitVec 64) (table : SmBiosType17) : SmBiosType17 :=
  let table :=
    if memorySize < size32GB - size1MB then
      { table with size := (memorySize / size1MB).setWidth 16 }
    else
      { table with
        size := 0x7FFF
        extendedSize := memorySize.setWidth 32 }
  { table with volatileSize := memorySize }

def updateSmBiosType19 (memoryBase memoryEnd : BitVec 64) (table : SmBiosType19) : SmBiosType19 :=
  if memoryEnd < size4TB then
    { table with
      startingAddress := (memoryBase / size1KB).setWidth 32
      endingAddress := (memoryEnd / size1KB).setWidth 32 }
  else
    { startingAddress := 0xFFFFFFFF
      endingAddress := 0xFFFFFFFF
      extendedStartingAddress := memoryBase
      extendedEndingAddress := memoryEnd }

structure SmBiosMemoryTables where
  type16 : SmBiosType16
  type17 : SmBiosType17
  type19 : SmBiosType19
  deriving DecidableEq, Repr

/-- The memory records that are registered. -/
def updateSmBiosTables (memoryBase memorySize : BitVec 64) : SmBiosMemoryTables where
  type16 := updateSmBiosType16 memorySize smBiosType16
  type17 := updateSmBiosType17 memorySize smBiosType17
  type19 := updateSmBiosType19 memoryBase (memoryBase + memorySize - 1) smBiosType19

/-- The capacity in bytes. -/
def SmBiosType16.decode (table : SmBiosType16) : ℕ :=
  if table.maximumCapacity = 0x80000000 then table.extendedMaximumCapacity.toNat
  else table.maximumCapacity.toNat * 1024

/-- The size of the device in bytes. -/
def SmBiosType17.decode (table : SmBiosType17) : ℕ :=
  if table.size = 0x7FFF then table.extendedSize.toNat * 1048576
  else table.size.toNat * 1048576

def SmBiosType19.granularity (table : SmBiosType19) : ℕ :=
  if table.startingAddress = 0xFFFFFFFF then 1 else 1024

/-- The first address of the range and the one behind it. -/
def SmBiosType19.decode (table : SmBiosType19) : ℕ × ℕ :=
  if table.startingAddress = 0xFFFFFFFF then
    (table.extendedStartingAddress.toNat, table.extendedEndingAddress.toNat + 1)
  else (table.startingAddress.toNat * 1024, (table.endingAddress.toNat + 1) * 1024)

/-- The least range of whole blocks around a range. -/
def wholeBlocks (granularity first behind : ℕ) : ℕ × ℕ :=
  (first / granularity * granularity,
    (behind + (granularity - 1)) / granularity * granularity)

structure DescribesMemory (tables : SmBiosMemoryTables) (memoryBase memorySize : BitVec 64) :
    Prop where
  capacity : tables.type16.decode = memorySize.toNat
  size : tables.type17.decode = memorySize.toNat
  volatileSize : tables.type17.volatileSize = memorySize
  range : tables.type19.decode = wholeBlocks tables.type19.granularity memoryBase.toNat
    (memoryBase.toNat + memorySize.toNat)

/-- The records can hold the memory: it has less than 32 GiB, and if it is empty, the byte in
front of it is one that a record in kilobytes can name. -/
structure RecordsHold (memoryBase memorySize : BitVec 64) : Prop where
  size : memorySize < size32GB
  empty : memorySize = 0 → memoryBase ≠ 0 ∧
    ¬(size4TB - size1KB ≤ memoryBase ∧ memoryBase ≤ size4TB)

variable {memoryBase memorySize : BitVec 64}

theorem toNat_size1KB : size1KB.toNat = 2 ^ 10 := rfl
theorem toNat_size1MB : size1MB.toNat = 2 ^ 20 := rfl
theorem toNat_size32GB : size32GB.toNat = 2 ^ 35 := rfl

theorem decode_type16 (hgib : 2 ^ 30 ∣ memorySize.toNat) (table : SmBiosType16) :
    (updateSmBiosType16 memorySize table).decode = memorySize.toNat := by
  rw [updateSmBiosType16]
  by_cases hsmall : memorySize < size2TB
  · rw [if_pos hsmall]
    have hlt : memorySize.toNat < 2 ^ 41 := hsmall
    have hcapacity : ((memorySize / size1KB).setWidth 32).toNat = memorySize.toNat / 2 ^ 10 := by
      rw [BitVec.toNat_setWidth, BitVec.toNat_udiv, toNat_size1KB]
      omega
    have hescape : (memorySize / size1KB).setWidth 32 ≠ 0x80000000 := by
      intro h
      have hescaped : memorySize.toNat / 2 ^ 10 = 2 ^ 31 := by rw [← hcapacity, h]; rfl
      omega
    rw [SmBiosType16.decode, if_neg hescape, hcapacity]
    omega
  · rw [if_neg hsmall, SmBiosType16.decode, if_pos rfl]

theorem decode_type17 (hgib : 2 ^ 30 ∣ memorySize.toNat) (table : SmBiosType17) :
    (updateSmBiosType17 memorySize table).decode = memorySize.toNat ↔ memorySize < size32GB := by
  have hthreshold : (size32GB - size1MB).toNat = 2 ^ 35 - 2 ^ 20 := rfl
  rw [BitVec.lt_def, toNat_size32GB]
  by_cases hsmall : memorySize < size32GB - size1MB
  · have hlt : memorySize.toNat < 2 ^ 35 - 2 ^ 20 := hsmall
    have hsize : ((memorySize / size1MB).setWidth 16).toNat = memorySize.toNat / 2 ^ 20 := by
      rw [BitVec.toNat_setWidth, BitVec.toNat_udiv, toNat_size1MB]
      omega
    have hescape : (memorySize / size1MB).setWidth 16 ≠ 0x7FFF := by
      intro h
      have hescaped : memorySize.toNat / 2 ^ 20 = 0x7FFF := by rw [← hsize, h]; rfl
      omega
    simp only [updateSmBiosType17, if_pos hsmall, SmBiosType17.decode, if_neg hescape, hsize]
    omega
  · have hge : 2 ^ 35 - 2 ^ 20 ≤ memorySize.toNat := Nat.not_lt.mp hsmall
    have hdecode : (updateSmBiosType17 memorySize table).decode =
        memorySize.toNat % 2 ^ 32 * 1048576 := by
      rw [updateSmBiosType17, if_neg hsmall, SmBiosType17.decode, if_pos rfl,
        BitVec.toNat_setWidth]
    rw [hdecode]
    omega

theorem volatileSize_type17 (table : SmBiosType17) :
    (updateSmBiosType17 memorySize table).volatileSize = memorySize := rfl

/-- The last byte in front of the range that an empty memory at address zero has wraps around. -/
theorem toNat_memoryEnd (hwrap : memoryBase.toNat + memorySize.toNat < 2 ^ 64) :
    (memoryBase + memorySize - 1).toNat + 1 =
      if memoryBase.toNat + memorySize.toNat = 0 then 2 ^ 64
      else memoryBase.toNat + memorySize.toNat := by
  have hsum : (memoryBase + memorySize).toNat = memoryBase.toNat + memorySize.toNat := by
    rw [BitVec.toNat_add, Nat.mod_eq_of_lt hwrap]
  have hone : (1 : BitVec 64).toNat = 1 := rfl
  rw [BitVec.toNat_sub, hsum, hone]
  split <;> omega

/-- The record of a range whose last byte is below 4 TiB. -/
theorem updateSmBiosType19_small (memoryBase : BitVec 64) {memoryEnd : BitVec 64}
    (hsmall : memoryEnd < size4TB) (table : SmBiosType19) :
    (updateSmBiosType19 memoryBase memoryEnd table).startingAddress.toNat =
        memoryBase.toNat / 1024 % 2 ^ 32 ∧
      (updateSmBiosType19 memoryBase memoryEnd table).endingAddress.toNat =
        memoryEnd.toNat / 1024 := by
  have hlt : memoryEnd.toNat < 2 ^ 42 := hsmall
  rw [updateSmBiosType19, if_pos hsmall]
  constructor
  · rw [BitVec.toNat_setWidth, BitVec.toNat_udiv]
    rfl
  · rw [BitVec.toNat_setWidth, BitVec.toNat_udiv, toNat_size1KB]
    omega

/-- The first kilobyte of a range below 4 TiB has the number that stands for the wider fields. -/
theorem escapes_iff (hsmall : memoryBase + memorySize - 1 < size4TB) (table : SmBiosType19) :
    (updateSmBiosType19 memoryBase (memoryBase + memorySize - 1) table).startingAddress =
      0xFFFFFFFF ↔ memoryBase.toNat / 1024 % 2 ^ 32 = 2 ^ 32 - 1 := by
  rw [← BitVec.toNat_inj, (updateSmBiosType19_small memoryBase hsmall table).1]
  exact Iff.rfl

/-- The hypotheses of `RecordsHold` on an empty memory, on numbers. -/
theorem empty_iff : (memorySize = 0 → memoryBase ≠ 0 ∧
    ¬(size4TB - size1KB ≤ memoryBase ∧ memoryBase ≤ size4TB)) ↔
    (memorySize.toNat = 0 → memoryBase.toNat ≠ 0 ∧
      ¬(2 ^ 42 - 2 ^ 10 ≤ memoryBase.toNat ∧ memoryBase.toNat ≤ 2 ^ 42)) := by
  have hzero : ∀ v : BitVec 64, v = 0 ↔ v.toNat = 0 := fun v => by
    rw [← BitVec.toNat_inj]
    exact Iff.rfl
  rw [Ne, hzero, hzero]
  exact Iff.rfl

theorem decode_type19 (hwrap : memoryBase.toNat + memorySize.toNat < 2 ^ 64)
    (hgib : 2 ^ 30 ∣ memorySize.toNat) :
    let table := updateSmBiosType19 memoryBase (memoryBase + memorySize - 1) smBiosType19
    table.decode = wholeBlocks table.granularity memoryBase.toNat
        (memoryBase.toNat + memorySize.toNat) ↔
      (memorySize = 0 → memoryBase ≠ 0 ∧
        ¬(size4TB - size1KB ≤ memoryBase ∧ memoryBase ≤ size4TB)) := by
  intro table
  have hend := toNat_memoryEnd hwrap
  rw [empty_iff]
  by_cases hsmall : memoryBase + memorySize - 1 < size4TB
  · have hlt : (memoryBase + memorySize - 1).toNat < 2 ^ 42 := hsmall
    have hsome : memoryBase.toNat + memorySize.toNat ≠ 0 := by
      intro hnone
      rw [if_pos hnone] at hend
      omega
    rw [if_neg hsome] at hend
    by_cases hescape : table.startingAddress = 0xFFFFFFFF
    · have hfirst := (escapes_iff hsmall smBiosType19).mp hescape
      have hstart : table.extendedStartingAddress.toNat = 0 :=
        congrArg (fun t : SmBiosType19 => t.extendedStartingAddress.toNat) (if_pos hsmall)
      rw [SmBiosType19.decode, SmBiosType19.granularity, if_pos hescape, if_pos hescape, hstart,
        wholeBlocks, Prod.mk.injEq]
      omega
    · have hfirst := (escapes_iff hsmall smBiosType19).not.mp hescape
      obtain ⟨hstart, hending⟩ := updateSmBiosType19_small memoryBase hsmall smBiosType19
      rw [SmBiosType19.decode, SmBiosType19.granularity, if_neg hescape, if_neg hescape, hstart,
        hending, wholeBlocks, Prod.mk.injEq]
      omega
  · have hge : 2 ^ 42 ≤ (memoryBase + memorySize - 1).toNat := Nat.not_lt.mp hsmall
    have htable : table = ⟨0xFFFFFFFF, 0xFFFFFFFF, memoryBase, memoryBase + memorySize - 1⟩ :=
      if_neg hsmall
    rw [htable, SmBiosType19.decode, SmBiosType19.granularity, if_pos rfl, if_pos rfl,
      wholeBlocks, Prod.mk.injEq]
    dsimp only
    split at hend <;> omega

/-- The records describe the memory exactly when they can hold it. -/
theorem describesMemory_iff (hwrap : memoryBase.toNat + memorySize.toNat < 2 ^ 64)
    (hgib : 2 ^ 30 ∣ memorySize.toNat) :
    DescribesMemory (updateSmBiosTables memoryBase memorySize) memoryBase memorySize ↔
      RecordsHold memoryBase memorySize := by
  constructor
  · intro h
    exact ⟨(decode_type17 hgib smBiosType17).mp h.size, (decode_type19 hwrap hgib).mp h.range⟩
  · intro h
    exact ⟨decode_type16 hgib smBiosType16, (decode_type17 hgib smBiosType17).mpr h.size,
      volatileSize_type17 smBiosType17, (decode_type19 hwrap hgib).mpr h.empty⟩

/-- 8 GiB at 2 GiB. -/
theorem describesMemory_8GB :
    DescribesMemory (updateSmBiosTables 0x80000000 0x200000000) 0x80000000 0x200000000 ↔
      RecordsHold 0x80000000 0x200000000 :=
  describesMemory_iff (by decide) (by decide)

/-- 32 GiB are decoded as none. -/
theorem not_describesMemory_32GB :
    ¬DescribesMemory (updateSmBiosTables 0x80000000 0x800000000) 0x80000000 0x800000000 := by
  intro h
  exact absurd h.size (by decide)

end ProjectMu
