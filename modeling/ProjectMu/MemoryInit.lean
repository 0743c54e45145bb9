import ProjectMu.RamManagerExact

/-!
# The memory map of a platform

`validateMemoryMap` sorts the regions of a platform and compares neighbours only. From the base
of system memory on no two regions overlap then, because the sorted regions between two of them
lie between their addresses.
-/

namespace ProjectMu.MemoryInit

open IntervalGaps

structure EfiMemoryRegionDescriptor where
  address : BitVec 64
  length : BitVec 64
  deriving DecidableEq, Repr

def maxArmMemoryRegionDescriptorCount : ℕ := 128

def compareMemoryRegions (region1 region2 : EfiMemoryRegionDescriptor) : ℤ :=
  if region1.address < region2.address then -1
  else if region2.address < region1.address then 1
  else 0

/-- The loop over neighbours; it goes on after an overlap. -/
def checkNeighbours (pcdSystemMemoryBase : BitVec 64) :
    Bool → List EfiMemoryRegionDescriptor → Bool
  | isInvalid, currentRegion :: nextRegion :: regions =>
    let endAddress := currentRegion.address + currentRegion.length
    if currentRegion.address < pcdSystemMemoryBase then
      checkNeighbours pcdSystemMemoryBase isInvalid (nextRegion :: regions)
    else
      checkNeighbours pcdSystemMemoryBase (isInvalid || nextRegion.address < endAddress)
        (nextRegion :: regions)
  | isInvalid, _ => isInvalid

/-- The sorted map, or `none` for the dead loop of a failed assertion or of `CpuDeadLoop`. -/
def validateMemoryMap (performQuickSort : {β : Type} → List β → (β → β → ℤ) → List β)
    (pcdSystemMemoryBase : BitVec 64) (memoryDescriptor : List EfiMemoryRegionDescriptor) :
    Option (List EfiMemoryRegionDescriptor) :=
  if (memoryDescriptor.length : ℤ) - 1 < maxArmMemoryRegionDescriptorCount then
    let memoryDescriptor := performQuickSort memoryDescriptor compareMemoryRegions
    if checkNeighbours pcdSystemMemoryBase false memoryDescriptor then none
    else some memoryDescriptor
  else none

def EfiMemoryRegionDescriptor.interval (r : EfiMemoryRegionDescriptor) : ℕ × ℕ :=
  (r.address.toNat, r.address.toNat + r.length.toNat)

/-- From `base` on, a region ends before the next one starts. -/
def EndsBefore (base : BitVec 64) (r s : EfiMemoryRegionDescriptor) : Prop :=
  base.toNat ≤ r.interval.1 → r.interval.2 ≤ s.interval.1

variable {base : BitVec 64} {regions : List EfiMemoryRegionDescriptor}
  {r s : EfiMemoryRegionDescriptor} {isInvalid : Bool}

theorem compareMemoryRegions_le (r s : EfiMemoryRegionDescriptor) :
    compareMemoryRegions r s ≤ 0 ↔ r.interval.1 ≤ s.interval.1 :=
  compareAddresses_le r.address s.address

/-- The comparison of an end address that does not wrap around. -/
theorem endAddress_lt_iff (h : NoWrap r.interval) :
    s.address < r.address + r.length ↔ ¬r.interval.2 ≤ s.interval.1 := by
  have hend : r.address.toNat + r.length.toNat < 2 ^ 64 := h
  rw [BitVec.lt_def, BitVec.toNat_add, Nat.mod_eq_of_lt hend, Nat.not_le]
  exact Iff.rfl

theorem checkNeighbours_eq_false_iff (h : ∀ r ∈ regions, NoWrap r.interval) :
    checkNeighbours base isInvalid regions = false ↔
      isInvalid = false ∧ regions.IsChain (EndsBefore base) := by
  induction regions generalizing isInvalid with
  | nil => simp [checkNeighbours]
  | cons r regions ih =>
    cases regions with
    | nil => simp [checkNeighbours]
    | cons s regions =>
      obtain ⟨hr, hrest⟩ := List.forall_mem_cons.mp h
      rw [checkNeighbours, List.isChain_cons_cons, EndsBefore]
      by_cases hbase : r.address < base
      · have hskip : ¬base.toNat ≤ r.interval.1 := Nat.not_le.mpr hbase
        rw [if_pos hbase, ih hrest]
        simp [hskip]
      · have hcheck : base.toNat ≤ r.interval.1 := Nat.not_lt.mp hbase
        rw [if_neg hbase, ih hrest, Bool.or_eq_false_iff, decide_eq_false_iff_not,
          endAddress_lt_iff hr, not_not, and_assoc]
        simp [hcheck]

/-- Sorted regions that pass the check are apart from the base of system memory on. -/
theorem disjoint_of_checkNeighbours (hends : ∀ r ∈ regions, NoWrap r.interval)
    (horder : regions.Pairwise (fun r s => r.interval.1 ≤ s.interval.1))
    (hcheck : checkNeighbours base false regions = false) :
    regions.Pairwise (fun r s => base ≤ r.address →
      Disjoint (points r.interval) (points s.interval)) := by
  have hchain := ((checkNeighbours_eq_false_iff hends).mp hcheck).2
  have hpair : (regions.map EfiMemoryRegionDescriptor.interval).Pairwise
      (fun r s => base.toNat ≤ r.1 → r.2 ≤ s.1) :=
    pairwise_of_isChain (List.pairwise_map.mpr horder) ((List.isChain_map _).mpr hchain)
  exact (List.pairwise_map.mp hpair).imp fun h hr => disjoint_of_le (h hr)

/-- Sorted nonempty regions that are apart pass the check. -/
theorem checkNeighbours_of_disjoint (hends : ∀ r ∈ regions, NoWrap r.interval)
    (horder : regions.Pairwise (fun r s => r.interval.1 ≤ s.interval.1))
    (hpos : ∀ r ∈ regions, 0 < r.length)
    (hapart : regions.Pairwise (fun r s => Disjoint (points r.interval) (points s.interval))) :
    checkNeighbours base false regions = false := by
  have hpair : regions.Pairwise (EndsBefore base) := by
    refine (horder.and hapart).imp_of_mem ?_
    rintro r s - hs ⟨hle, hdisjoint⟩ -
    have hnonempty : 0 < s.length.toNat := hpos s hs
    exact le_of_disjoint hle (Nat.lt_add_of_pos_right hnonempty) hdisjoint
  exact (checkNeighbours_eq_false_iff hends).mpr ⟨rfl, hpair.isChain⟩

/-- A map that is accepted is sorted and free of overlaps from the base of system memory on, and
every map of nonempty regions that do not overlap is accepted. -/
theorem validateMemoryMap_overlapFree
    {performQuickSort : {β : Type} → List β → (β → β → ℤ) → List β}
    (hsort : SortsBy (fun l => performQuickSort l compareMemoryRegions) compareMemoryRegions)
    (pcdSystemMemoryBase : BitVec 64) (regions : List EfiMemoryRegionDescriptor)
    (hcount : 1 ≤ regions.length ∧ regions.length ≤ 128)
    (hends : ∀ r ∈ regions, NoWrap r.interval) :
    (∀ sorted, validateMemoryMap performQuickSort pcdSystemMemoryBase regions = some sorted →
      sorted.Perm regions ∧ sorted.Pairwise (fun r s => r.address ≤ s.address) ∧
      sorted.Pairwise (fun r s => pcdSystemMemoryBase ≤ r.address →
        pcdSystemMemoryBase ≤ s.address → Disjoint (points r.interval) (points s.interval))) ∧
    ((∀ r ∈ regions, 0 < r.length) →
      regions.Pairwise (fun r s => Disjoint (points r.interval) (points s.interval)) →
      ∃ sorted, validateMemoryMap performQuickSort pcdSystemMemoryBase regions = some sorted) := by
  set sorted := performQuickSort regions compareMemoryRegions with hsorted
  have hperm : sorted.Perm regions := hsort.perm regions
  have horder : sorted.Pairwise (fun r s => r.interval.1 ≤ s.interval.1) :=
    (hsort.sorted regions).imp fun h => (compareMemoryRegions_le _ _).mp h
  have hsortedEnds : ∀ r ∈ sorted, NoWrap r.interval := fun r hr => hends r (hperm.mem_iff.mp hr)
  have hassert : (regions.length : ℤ) - 1 < maxArmMemoryRegionDescriptorCount := by
    rw [maxArmMemoryRegionDescriptorCount]
    omega
  have hvalidate : validateMemoryMap performQuickSort pcdSystemMemoryBase regions =
      if checkNeighbours pcdSystemMemoryBase false sorted then none else some sorted :=
    if_pos hassert
  rw [hvalidate]
  constructor
  · intro result hresult
    cases hcheck : checkNeighbours pcdSystemMemoryBase false sorted with
    | true =>
      rw [hcheck] at hresult
      cases hresult
    | false =>
      rw [hcheck] at hresult
      obtain rfl : sorted = result := Option.some_inj.mp hresult
      have hpair := disjoint_of_checkNeighbours hsortedEnds horder hcheck
      exact ⟨hperm, horder, hpair.imp fun h hr _ => h hr⟩
  · intro hpos hdisjoint
    have hsortedPos : ∀ r ∈ sorted, 0 < r.length := fun r hr => hpos r (hperm.mem_iff.mp hr)
    have hapart : sorted.Pairwise
        (fun r s => Disjoint (points r.interval) (points s.interval)) :=
      (hperm.pairwise_iff fun h => h.symm).mpr hdisjoint
    rw [checkNeighbours_of_disjoint hsortedEnds horder hsortedPos hapart]
    exact ⟨sorted, rfl⟩

/-- Two regions out of order, and a register region below the base of system memory. -/
theorem validateMemoryMap_outOfOrder :
    let regions : List EfiMemoryRegionDescriptor :=
      [⟨0x9000, 0x1000⟩, ⟨0x100, 0x8000⟩, ⟨0x8100, 0xF00⟩]
    (∀ sorted, validateMemoryMap mergeSortBy 0x8000 regions = some sorted →
      sorted.Perm regions ∧ sorted.Pairwise (fun r s => r.address ≤ s.address) ∧
      sorted.Pairwise (fun r s => 0x8000 ≤ r.address →
        0x8000 ≤ s.address → Disjoint (points r.interval) (points s.interval))) ∧
    ((∀ r ∈ regions, 0 < r.length) →
      regions.Pairwise (fun r s => Disjoint (points r.interval) (points s.interval)) →
      ∃ sorted, validateMemoryMap mergeSortBy 0x8000 regions = some sorted) := by
  apply validateMemoryMap_overlapFree
  · exact mergeSortBy_sorts (fun r => r.interval.1) compareMemoryRegions_le
  · decide
  · simp [NoWrap, EfiMemoryRegionDescriptor.interval]

end ProjectMu.MemoryInit
