import ProjectMu.MemoryInit
import ProjectMu.Terminated

/-!
# The table for the MMU

`memoryPeim` copies the regions of the memory map that are to be mapped into a table of 128
entries, which is read up to its first entry of length zero. A full table has no such entry, and
an empty region ends the table before the regions behind it.
-/

namespace ProjectMu.MemoryPeim

open MemoryInit Terminated

inductive EfiMemoryHobOption
  | noHob
  | addMem
  | addDev
  | hobOnlyNoCacheSetting
  | allocOnly
  | maxMem
  deriving DecidableEq, Repr

/-- A region of the memory map with its settings. -/
structure MemoryRegion extends EfiMemoryRegionDescriptor where
  hobOption : EfiMemoryHobOption
  resourceType : BitVec 32
  resourceAttribute : BitVec 32
  memoryType : BitVec 32
  armAttributes : BitVec 32
  deriving DecidableEq, Repr

def efiResourceSystemMemory : BitVec 32 := 0
def efiRuntimeServicesData : BitVec 32 := 6

structure ArmMemoryRegionDescriptor where
  physicalBase : BitVec 64
  virtualBase : BitVec 64
  length : BitVec 64
  attributes : BitVec 32
  deriving DecidableEq, Repr

inductive Hob
  | resourceDescriptor (resourceType resourceAttribute : BitVec 32) (address length : BitVec 64)
  | memoryAllocation (address length : BitVec 64) (memoryType : BitVec 32)
  deriving DecidableEq, Repr

def compareMemoryRegions (region1 region2 : MemoryRegion) : ℤ :=
  MemoryInit.compareMemoryRegions region1.toEfiMemoryRegionDescriptor
    region2.toEfiMemoryRegionDescriptor

/-- `MemoryInit.validateMemoryMap` on regions with their settings, which move with them. -/
def validateMemoryMap (performQuickSort : {β : Type} → List β → (β → β → ℤ) → List β)
    (pcdSystemMemoryBase : BitVec 64) (memoryDescriptor : List MemoryRegion) :
    Option (List MemoryRegion) :=
  if (memoryDescriptor.length : ℤ) - 1 < maxArmMemoryRegionDescriptorCount then
    let memoryDescriptor := performQuickSort memoryDescriptor compareMemoryRegions
    if checkNeighbours pcdSystemMemoryBase false
        (memoryDescriptor.map MemoryRegion.toEfiMemoryRegionDescriptor) then none
    else some memoryDescriptor
  else none

/-- The HOBs that are built for a region. -/
def addHob (memoryRegion : MemoryRegion) : List Hob :=
  let hobOption := memoryRegion.hobOption
  (if hobOption = .addMem ∨ hobOption = .addDev ∨ hobOption = .hobOnlyNoCacheSetting then
    [.resourceDescriptor memoryRegion.resourceType memoryRegion.resourceAttribute
      memoryRegion.address memoryRegion.length]
  else []) ++
  (if memoryRegion.resourceType = efiResourceSystemMemory ∨
      memoryRegion.memoryType = efiRuntimeServicesData then
    [.memoryAllocation memoryRegion.address memoryRegion.length memoryRegion.memoryType]
  else [])

/-- The entry of a region, identity mapped. -/
def MemoryRegion.entry (region : MemoryRegion) : ArmMemoryRegionDescriptor where
  physicalBase := region.address
  virtualBase := region.address
  length := region.length
  attributes := region.armAttributes

/-- The HOBs, the table and its index in the loop over the regions. -/
structure PeimState where
  hobs : List Hob
  memoryTable : List ArmMemoryRegionDescriptor
  index : ℕ

def PeimState.initial : PeimState where
  hobs := []
  memoryTable := List.replicate maxArmMemoryRegionDescriptorCount ⟨0, 0, 0, 0⟩
  index := 0

def addRegion (s : PeimState) (region : MemoryRegion) : PeimState :=
  let s := { s with hobs := s.hobs ++ addHob region }
  if region.hobOption = .hobOnlyNoCacheSetting then s
  else
    { s with
      memoryTable := s.memoryTable.set s.index region.entry
      index := s.index + 1 }

/-- The status, the HOBs and the table that `ArmConfigureMmu` gets, or `none` for the dead loop of
an invalid memory map. -/
def memoryPeim (performQuickSort : {β : Type} → List β → (β → β → ℤ) → List β)
    (pcdSystemMemoryBase : BitVec 64)
    (armConfigureMmu : List ArmMemoryRegionDescriptor → Except EfiError Unit)
    (memoryMap : List MemoryRegion) : Option (Except EfiError Unit × PeimState) :=
  (validateMemoryMap performQuickSort pcdSystemMemoryBase memoryMap).map (fun memoryDescriptor =>
    let s := memoryDescriptor.foldl addRegion .initial
    (armConfigureMmu s.memoryTable, s))

/-- The entries in front of the first one of length zero, if the table has one. -/
def walkTable (memoryTable : List ArmMemoryRegionDescriptor) :
    Option (List ArmMemoryRegionDescriptor) :=
  (untilEnd (fun entry => entry.length == 0) memoryTable).map Prod.fst

def MemoryRegion.isMapped (region : MemoryRegion) : Bool :=
  region.hobOption ≠ .hobOnlyNoCacheSetting

def mappedEntries (regions : List MemoryRegion) : List ArmMemoryRegionDescriptor :=
  (regions.filter MemoryRegion.isMapped).map MemoryRegion.entry

/-- The table ends inside of the array and lists the regions that are to be mapped, in ascending
order. -/
def DescribesMapped (memoryTable : List ArmMemoryRegionDescriptor)
    (memoryMap : List MemoryRegion) : Prop :=
  ∃ entries, walkTable memoryTable = some entries ∧ entries.Perm (mappedEntries memoryMap) ∧
    entries.Pairwise (fun e f => e.physicalBase ≤ f.physicalBase)

/-- Behind the mapped regions the table has place for an end, and none of them looks like one. -/
structure TableHolds (memoryMap : List MemoryRegion) : Prop where
  count : (mappedEntries memoryMap).length < maxArmMemoryRegionDescriptorCount
  lengths : ∀ entry ∈ mappedEntries memoryMap, entry.length ≠ 0

variable {performQuickSort : {β : Type} → List β → (β → β → ℤ) → List β}
  {pcdSystemMemoryBase : BitVec 64} {regions sorted memoryMap : List MemoryRegion}
  {armConfigureMmu : List ArmMemoryRegionDescriptor → Except EfiError Unit}

/-- For a sort that moves the settings with the regions, the map is validated as the one without
settings. -/
theorem validateMemoryMap_eq
    (hsort : ∀ l : List MemoryRegion, (performQuickSort l compareMemoryRegions).map
      MemoryRegion.toEfiMemoryRegionDescriptor =
        performQuickSort (l.map MemoryRegion.toEfiMemoryRegionDescriptor)
          MemoryInit.compareMemoryRegions) :
    (validateMemoryMap performQuickSort pcdSystemMemoryBase memoryMap).map
        (fun sorted => sorted.map MemoryRegion.toEfiMemoryRegionDescriptor) =
      MemoryInit.validateMemoryMap performQuickSort pcdSystemMemoryBase
        (memoryMap.map MemoryRegion.toEfiMemoryRegionDescriptor) := by
  rw [validateMemoryMap, MemoryInit.validateMemoryMap, List.length_map, ← hsort memoryMap]
  by_cases hcount : (memoryMap.length : ℤ) - 1 < maxArmMemoryRegionDescriptorCount
  · rw [if_pos hcount, if_pos hcount]
    exact apply_ite (Option.map _) _ _ _
  · rw [if_neg hcount, if_neg hcount]
    rfl

theorem validateMemoryMap_eq_some (h : validateMemoryMap performQuickSort pcdSystemMemoryBase
    memoryMap = some sorted) :
    memoryMap.length ≤ maxArmMemoryRegionDescriptorCount ∧
      sorted = performQuickSort memoryMap compareMemoryRegions := by
  rw [validateMemoryMap] at h
  by_cases hcount : (memoryMap.length : ℤ) - 1 < maxArmMemoryRegionDescriptorCount
  · rw [if_pos hcount] at h
    refine ⟨by omega, ?_⟩
    dsimp only at h
    split at h
    · cases h
    · exact (Option.some_inj.mp h).symm
  · rw [if_neg hcount] at h
    cases h

@[simp] theorem mappedEntries_cons_mapped {region : MemoryRegion}
    (h : region.hobOption ≠ .hobOnlyNoCacheSetting) (regions : List MemoryRegion) :
    mappedEntries (region :: regions) = region.entry :: mappedEntries regions := by
  have hmapped : region.isMapped = true := decide_eq_true h
  rw [mappedEntries, List.filter_cons_of_pos hmapped, List.map_cons, mappedEntries]

@[simp] theorem mappedEntries_cons_skipped {region : MemoryRegion}
    (h : region.hobOption = .hobOnlyNoCacheSetting) (regions : List MemoryRegion) :
    mappedEntries (region :: regions) = mappedEntries regions := by
  have hskip : ¬region.isMapped = true := by
    rw [MemoryRegion.isMapped, decide_eq_true_eq, not_not]
    exact h
  rw [mappedEntries, List.filter_cons_of_neg hskip, mappedEntries]

theorem length_mappedEntries_le (regions : List MemoryRegion) :
    (mappedEntries regions).length ≤ regions.length := by
  rw [mappedEntries, List.length_map]
  exact List.length_filter_le _ _

/-- The entries so far and the free ones behind them. -/
theorem foldl_addRegion (hobs : List Hob) (entries : List ArmMemoryRegionDescriptor) (free : ℕ)
    (hroom : (mappedEntries regions).length ≤ free) :
    ((regions.foldl addRegion ⟨hobs, entries ++ List.replicate free ⟨0, 0, 0, 0⟩,
      entries.length⟩).memoryTable) = entries ++ mappedEntries regions ++
        List.replicate (free - (mappedEntries regions).length) ⟨0, 0, 0, 0⟩ := by
  induction regions generalizing hobs entries free with
  | nil => simp [mappedEntries]
  | cons region regions ih =>
    rw [List.foldl_cons, addRegion]
    by_cases hskip : region.hobOption = .hobOnlyNoCacheSetting
    · rw [mappedEntries_cons_skipped hskip] at hroom ⊢
      rw [if_pos hskip]
      exact ih _ entries free hroom
    · rw [mappedEntries_cons_mapped hskip] at hroom ⊢
      rw [List.length_cons] at hroom
      obtain ⟨rest, rfl⟩ : ∃ rest, free = rest + 1 := ⟨free - 1, by omega⟩
      have hset (zero : ArmMemoryRegionDescriptor) :
          (entries ++ List.replicate (rest + 1) zero).set entries.length region.entry =
            (entries ++ [region.entry]) ++ List.replicate rest zero := by
        rw [List.set_append_right _ _ le_rfl, Nat.sub_self, List.replicate_succ, List.set_cons_zero,
          List.append_assoc]
        rfl
      have hindex : entries.length + 1 = (entries ++ [region.entry]).length := by simp
      rw [if_neg hskip]
      dsimp only
      rw [hset, hindex, ih _ _ rest (by omega), List.length_cons, Nat.add_sub_add_right,
        List.append_assoc entries]
      rfl

/-- The table of an accepted map has the mapped regions in front and zeros behind them. -/
theorem memoryTable_memoryPeim {status : Except EfiError Unit} {s : PeimState}
    (h : memoryPeim performQuickSort pcdSystemMemoryBase armConfigureMmu memoryMap =
      some (status, s))
    (hsort : SortsBy (fun l => performQuickSort l compareMemoryRegions) compareMemoryRegions) :
    ∃ sorted : List MemoryRegion, sorted.Perm memoryMap ∧
      sorted.Pairwise (fun r t => r.address ≤ t.address) ∧
      (mappedEntries sorted).length ≤ maxArmMemoryRegionDescriptorCount ∧
      s.memoryTable = mappedEntries sorted ++ List.replicate
        (maxArmMemoryRegionDescriptorCount - (mappedEntries sorted).length) ⟨0, 0, 0, 0⟩ := by
  obtain ⟨sorted, hvalid, heq⟩ := Option.map_eq_some_iff.mp h
  obtain ⟨hcount, rfl⟩ := validateMemoryMap_eq_some hvalid
  have hperm := hsort.perm memoryMap
  have hroom := (length_mappedEntries_le (performQuickSort memoryMap compareMemoryRegions)).trans
    (hperm.length_eq.le.trans hcount)
  have htable := foldl_addRegion [] [] maxArmMemoryRegionDescriptorCount hroom
  rw [← (Prod.mk.inj heq).2]
  exact ⟨_, hperm, (hsort.sorted memoryMap).imp fun h => (compareMemoryRegions_le _ _).mp h, hroom,
    htable⟩

theorem mappedEntries_perm (h : regions.Perm sorted) :
    (mappedEntries regions).Perm (mappedEntries sorted) :=
  (h.filter _).map _

theorem mappedEntries_pairwise (h : regions.Pairwise (fun r t => r.address ≤ t.address)) :
    (mappedEntries regions).Pairwise (fun e f => e.physicalBase ≤ f.physicalBase) :=
  List.pairwise_map.mpr (h.filter _)

/-- Entries of which none looks like an end are read if there is an end behind them. -/
theorem walkTable_of_lengths {entries : List ArmMemoryRegionDescriptor} {free : ℕ}
    (hlengths : ∀ entry ∈ entries, entry.length ≠ 0) (hfree : 0 < free) :
    walkTable (entries ++ List.replicate free ⟨0, 0, 0, 0⟩) = some entries := by
  obtain ⟨rest, rfl⟩ : ∃ rest, free = rest + 1 := ⟨free - 1, by omega⟩
  rw [walkTable, List.replicate_succ, untilEnd_of_end (fun e he => beq_false_of_ne (hlengths e he))
    rfl]
  rfl

/-- What is read up to the end is all entries only if none of them looks like an end and there is
one behind them. -/
theorem lengths_of_walkTable {entries read : List ArmMemoryRegionDescriptor} {free : ℕ}
    (h : walkTable (entries ++ List.replicate free ⟨0, 0, 0, 0⟩) = some read)
    (hlength : read.length = entries.length) :
    (∀ entry ∈ entries, entry.length ≠ 0) ∧ 0 < free := by
  obtain ⟨⟨items, rest⟩, huntil, rfl⟩ := Option.map_eq_some_iff.mp h
  obtain ⟨rfl, hback⟩ := eq_of_length_eq huntil hlength
  refine ⟨fun e he => ne_of_beq_false ((eq_of_untilEnd huntil).1 e he), ?_⟩
  by_contra hnone
  rw [Nat.eq_zero_of_not_pos hnone] at hback
  exact hback rfl

/-- The table of an accepted map describes the mapped regions exactly when it can hold them. -/
theorem memoryPeim_describesMapped_iff
    (hsort : SortsBy (fun l => performQuickSort l compareMemoryRegions) compareMemoryRegions)
    (pcdSystemMemoryBase : BitVec 64)
    (armConfigureMmu : List ArmMemoryRegionDescriptor → Except EfiError Unit)
    (memoryMap : List MemoryRegion) {status : Except EfiError Unit} {s : PeimState}
    (haccepted : memoryPeim performQuickSort pcdSystemMemoryBase armConfigureMmu memoryMap =
      some (status, s)) :
    DescribesMapped s.memoryTable memoryMap ↔ TableHolds memoryMap := by
  obtain ⟨sorted, hperm, hpairwise, hroom, htable⟩ := memoryTable_memoryPeim haccepted hsort
  have hentries := mappedEntries_perm hperm
  have hcount := hentries.length_eq
  rw [DescribesMapped, htable]
  constructor
  · rintro ⟨read, hwalk, hread, -⟩
    obtain ⟨hlengths, hfree⟩ := lengths_of_walkTable hwalk (hread.length_eq.trans hcount.symm)
    exact ⟨by omega, fun e he => hlengths e (hentries.mem_iff.mpr he)⟩
  · intro h
    have hfree := h.count
    refine ⟨mappedEntries sorted, walkTable_of_lengths (fun e he => h.lengths e
      (hentries.mem_iff.mp he)) (by omega), hentries, mappedEntries_pairwise hpairwise⟩

theorem mergeSortBy_sortsRegions :
    SortsBy (fun l => mergeSortBy l compareMemoryRegions) compareMemoryRegions :=
  mergeSortBy_sorts (fun r => r.address.toNat)
    (fun r t => MemoryInit.compareMemoryRegions_le r.toEfiMemoryRegionDescriptor
      t.toEfiMemoryRegionDescriptor)

/-- A sorted map that passes the check of its neighbours is accepted as it is. -/
theorem memoryPeim_of_sorted
    (hcount : (regions.length : ℤ) - 1 < maxArmMemoryRegionDescriptorCount)
    (horder : regions.Pairwise (fun r t => decide (compareMemoryRegions r t ≤ 0)))
    (hcheck : checkNeighbours pcdSystemMemoryBase false
      (regions.map MemoryRegion.toEfiMemoryRegionDescriptor) = false) :
    memoryPeim mergeSortBy pcdSystemMemoryBase armConfigureMmu regions =
      some (armConfigureMmu (regions.foldl addRegion .initial).memoryTable,
        regions.foldl addRegion .initial) := by
  have hsorted : mergeSortBy regions compareMemoryRegions = regions :=
    List.mergeSort_of_pairwise horder
  have hvalid : validateMemoryMap mergeSortBy pcdSystemMemoryBase regions = some regions := by
    rw [validateMemoryMap, if_pos hcount, hsorted]
    exact if_neg (ne_true_of_eq_false hcheck)
  rw [memoryPeim, hvalid]
  rfl

/-- Registers, a region that is not mapped and memory. -/
def threeRegions : List MemoryRegion :=
  [⟨⟨0x100, 0x700⟩, .addDev, 1, 1, 11, 3⟩, ⟨⟨0x8000, 0x1000⟩, .hobOnlyNoCacheSetting, 0, 7, 4, 1⟩,
    ⟨⟨0x9000, 0x1000⟩, .addMem, 0, 7, 7, 1⟩]

theorem threeRegions_describesMapped_iff :
    ∃ s, memoryPeim mergeSortBy 0x8000 (fun _ => .ok ()) threeRegions = some (.ok (), s) ∧
      (DescribesMapped s.memoryTable threeRegions ↔ TableHolds threeRegions) := by
  have haccepted := @memoryPeim_of_sorted 0x8000 threeRegions (fun _ => .ok ()) (by decide)
    (by decide) (by decide)
  exact ⟨_, haccepted, memoryPeim_describesMapped_iff mergeSortBy_sortsRegions 0x8000
    (fun _ => .ok ()) threeRegions haccepted⟩

/-- 128 regions of a page each. -/
def fullMap : List MemoryRegion :=
  (List.range 128).map fun i => ⟨⟨BitVec.ofNat 64 (i * 0x1000), 0x1000⟩, .addMem, 0, 7, 7, 1⟩

theorem fullMap_not_describesMapped :
    ∃ s, memoryPeim mergeSortBy 0 (fun _ => .ok ()) fullMap = some (.ok (), s) ∧
      ¬DescribesMapped s.memoryTable fullMap := by
  have haccepted : memoryPeim mergeSortBy 0 (fun _ => .ok ()) fullMap =
      some (.ok (), fullMap.foldl addRegion .initial) :=
    memoryPeim_of_sorted (by decide +kernel) (by decide +kernel) (by decide +kernel)
  have hfull : (mappedEntries fullMap).length = maxArmMemoryRegionDescriptorCount := by
    decide +kernel
  have htable : (fullMap.foldl addRegion .initial).memoryTable = mappedEntries fullMap ++
      List.replicate (maxArmMemoryRegionDescriptorCount - (mappedEntries fullMap).length)
        ⟨0, 0, 0, 0⟩ := foldl_addRegion [] [] maxArmMemoryRegionDescriptorCount hfull.le
  refine ⟨_, haccepted, ?_⟩
  rintro ⟨read, hwalk, hread, -⟩
  rw [htable] at hwalk
  obtain ⟨-, hfree⟩ := lengths_of_walkTable hwalk hread.length_eq
  omega

end ProjectMu.MemoryPeim
