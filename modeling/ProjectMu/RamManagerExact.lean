import ProjectMu.RamManager

/-!
# The mapped ranges are the RAM that is left

The gaps found for the sorted partitions are put together: they lie in disjoint
partitions, and the sorted map covers what the map covers.
-/

namespace ProjectMu

open IntervalGaps

theorem mapM_parseMemoryRange_gaps {efiMemoryMap : List EfiMemoryDescriptor}
    (hlen : efiMemoryMap.length ≤ 65535) (hw : ∀ d ∈ efiMemoryMap, NoWrap d.interval) {fuel : ℕ}
    (hfuel : efiMemoryMap.length < fuel) (memoryRange : List EfiMemoryRange)
    (hr : ∀ r ∈ memoryRange, NoWrap r.interval) :
    ∃ handled, memoryRange.mapM (fun range =>
        parseMemoryRange fuel efiMemoryMap range.address (range.address + range.length)) =
        some handled ∧
      handled.flatten.map EfiMemoryRange.interval =
        gapsAll (efiMemoryMap.map EfiMemoryDescriptor.interval)
          (memoryRange.map EfiMemoryRange.interval) := by
  induction memoryRange with
  | nil => exact ⟨[], rfl, rfl⟩
  | cons r memoryRange ih =>
    obtain ⟨handled, hmap, hgaps⟩ := ih fun s hs => hr s (List.mem_cons_of_mem r hs)
    have hend := EfiMemoryRange.toNat_end (hr r List.mem_cons_self)
    obtain ⟨out, hout, hone⟩ := parseMemoryRangeFrom_gaps hlen hw (r.address + r.length) fuel 0
      r.address [] (Nat.zero_le _) (by simpa using hfuel)
    rw [List.nil_append] at hout
    refine ⟨out :: handled, ?_, ?_⟩
    · rw [List.mapM_cons, parseMemoryRange, hout, hmap]
      rfl
    · rw [List.flatten_cons, List.map_append, hone, hgaps, hend]
      rfl

theorem compareAddresses_le (a b : BitVec 64) :
    (if a < b then (-1 : ℤ) else if b < a then 1 else 0) ≤ 0 ↔ a.toNat ≤ b.toNat := by
  by_cases hlt : a < b
  · rw [if_pos hlt]
    exact iff_of_true (by decide) (BitVec.le_of_lt hlt)
  · rw [if_neg hlt]
    by_cases hgt : b < a
    · rw [if_pos hgt]
      exact iff_of_false (by decide) (Nat.not_le_of_lt hgt)
    · rw [if_neg hgt]
      exact iff_of_true le_rfl (BitVec.not_lt.mp hgt)

theorem sorted_intervals {sort : List EfiMemoryDescriptor → List EfiMemoryDescriptor}
    (hsort : SortsBy sort compareMemoryRegions) (efiMemoryMap : List EfiMemoryDescriptor) :
    Sorted ((sort efiMemoryMap).map EfiMemoryDescriptor.interval) := by
  constructor
  · rw [List.pairwise_map]
    apply (hsort.sorted efiMemoryMap).imp
    intro d e h
    exact (compareAddresses_le d.physicalStart e.physicalStart).mp h
  · intro r hr
    obtain ⟨d, -, rfl⟩ := List.mem_map.mp hr
    exact Nat.le_add_right _ _

/-- The partitions as ranges. -/
def usableRanges (ramPartition : List RamPartitionEntry) : List EfiMemoryRange :=
  ramPartition.map fun p => ⟨p.base, p.availableLength⟩

theorem interval_usableRanges (ramPartition : List RamPartitionEntry) :
    (usableRanges ramPartition).map EfiMemoryRange.interval =
      ramPartition.map RamPartitionEntry.interval := by
  rw [usableRanges, List.map_map]
  rfl

section

variable {performQuickSort : {β : Type} → List β → (β → β → ℤ) → List β}
  {efiMemoryMap : List EfiMemoryDescriptor} {ramPartition : List RamPartitionEntry}

/-- The ranges passed to `MapMemoryRegion` are the gaps of the sorted map in the sorted
partitions. -/
theorem manageRam_gaps
    (hregions : SortsBy (fun l => performQuickSort l compareMemoryRegions) compareMemoryRegions)
    (hranges : SortsBy (fun l => performQuickSort l compareMemoryRanges) compareMemoryRanges)
    (hmap : efiMemoryMap.length ≤ 65535) (hcount : ramPartition.length ≤ 255)
    (hmapWrap : ∀ d ∈ efiMemoryMap, NoWrap d.interval)
    (hramWrap : ∀ p ∈ ramPartition, NoWrap p.interval)
    {fuel : ℕ} (hfuel : efiMemoryMap.length < fuel) :
    ∃ handled, manageRam performQuickSort fuel (.ok efiMemoryMap)
        (getUsableMemoryRanges true ramPartition) = some (.ok handled) ∧
      handled.map EfiMemoryRange.interval = gapsAll
        ((performQuickSort efiMemoryMap compareMemoryRegions).map EfiMemoryDescriptor.interval)
        ((performQuickSort (usableRanges ramPartition) compareMemoryRanges).map
          EfiMemoryRange.interval) := by
  have hperm := hregions.perm efiMemoryMap
  have hpermRanges := hranges.perm (usableRanges ramPartition)
  have hwrap : ∀ r ∈ performQuickSort (usableRanges ramPartition) compareMemoryRanges,
      NoWrap r.interval := by
    intro r hr
    obtain ⟨p, hp, rfl⟩ := List.mem_map.mp (hpermRanges.mem_iff.mp hr)
    exact hramWrap p hp
  obtain ⟨handled, hhandled, hgaps⟩ := mapM_parseMemoryRange_gaps
    (hperm.length_eq.le.trans hmap) (fun d hd => hmapWrap d (hperm.mem_iff.mp hd))
    (hperm.length_eq.trans_lt hfuel) _ hwrap
  have htake : (usableRanges ramPartition).take (BitVec.ofNat 8 ramPartition.length).toNat =
      usableRanges ramPartition := by
    rw [BitVec.toNat_ofNat, Nat.mod_eq_of_lt (by omega)]
    apply List.take_of_length_le
    rw [usableRanges, List.length_map]
  refine ⟨handled.flatten, ?_, hgaps⟩
  rw [usableRanges] at htake hhandled
  simp only [manageRam, getUsableMemoryRanges, if_true, htake, hhandled, Option.map_some]

/-- Gaps in partitions that are apart are apart. -/
theorem pairwise_of_gaps
    (hregions : SortsBy (fun l => performQuickSort l compareMemoryRegions) compareMemoryRegions)
    (hranges : SortsBy (fun l => performQuickSort l compareMemoryRanges) compareMemoryRanges)
    (hdisjoint : ramPartition.Pairwise
      (fun p q => Disjoint (points p.interval) (points q.interval)))
    {handled : List EfiMemoryRange}
    (hgaps : handled.map EfiMemoryRange.interval = gapsAll
      ((performQuickSort efiMemoryMap compareMemoryRegions).map EfiMemoryDescriptor.interval)
      ((performQuickSort (usableRanges ramPartition) compareMemoryRanges).map
        EfiMemoryRange.interval)) :
    handled.Pairwise (fun r s => Disjoint (points r.interval) (points s.interval)) := by
  have hpermRanges := hranges.perm (usableRanges ramPartition)
  have hapart : ((performQuickSort (usableRanges ramPartition) compareMemoryRanges).map
      EfiMemoryRange.interval).Pairwise (fun r s => Disjoint (points r) (points s)) := by
    rw [List.Perm.pairwise_iff (fun h => h.symm) (hpermRanges.map EfiMemoryRange.interval),
      interval_usableRanges, List.pairwise_map]
    exact hdisjoint
  have hpairwise := pairwise_gapsAll (sorted_intervals hregions efiMemoryMap) hapart
  rwa [← hgaps, List.pairwise_map] at hpairwise

end

/-- The ranges passed to `MapMemoryRegion` are nonempty and apart, and together they are the
RAM partitions without what the memory map describes. -/
theorem manageRam_exact {performQuickSort : {β : Type} → List β → (β → β → ℤ) → List β}
    (hregions : SortsBy (fun l => performQuickSort l compareMemoryRegions) compareMemoryRegions)
    (hranges : SortsBy (fun l => performQuickSort l compareMemoryRanges) compareMemoryRanges)
    {efiMemoryMap : List EfiMemoryDescriptor} {ramPartition : List RamPartitionEntry}
    (hmap : efiMemoryMap.length ≤ 65535) (hcount : ramPartition.length ≤ 255)
    (hmapWrap : ∀ d ∈ efiMemoryMap, NoWrap d.interval)
    (hramWrap : ∀ p ∈ ramPartition, NoWrap p.interval)
    (hdisjoint : ramPartition.Pairwise
      (fun p q => Disjoint (points p.interval) (points q.interval)))
    {fuel : ℕ} (hfuel : efiMemoryMap.length < fuel) :
    ∃ handled, manageRam performQuickSort fuel (.ok efiMemoryMap)
        (getUsableMemoryRanges true ramPartition) = some (.ok handled) ∧
      (∀ r ∈ handled, r.length ≠ 0 ∧ NoWrap r.interval) ∧
      handled.Pairwise (fun r s => Disjoint (points r.interval) (points s.interval)) ∧
      covered (handled.map EfiMemoryRange.interval) =
        covered (ramPartition.map RamPartitionEntry.interval) \
          covered (efiMemoryMap.map EfiMemoryDescriptor.interval) := by
  obtain ⟨handled, hmanage, hgaps⟩ := manageRam_gaps hregions hranges hmap hcount hmapWrap
    hramWrap hfuel
  have hperm := hregions.perm efiMemoryMap
  have hpermRanges := hranges.perm (usableRanges ramPartition)
  have hsorted := sorted_intervals hregions efiMemoryMap
  refine ⟨handled, hmanage, ?_, pairwise_of_gaps hregions hranges hdisjoint hgaps, ?_⟩
  · intro r hr
    have hmem := @List.mem_map_of_mem _ _ _ r EfiMemoryRange.interval hr
    rw [hgaps, gapsAll, List.mem_flatMap] at hmem
    obtain ⟨_, hs, hgap⟩ := hmem
    obtain ⟨s, hs', rfl⟩ := List.mem_map.mp hs
    obtain ⟨p, hp, rfl⟩ := List.mem_map.mp (hpermRanges.mem_iff.mp hs')
    obtain ⟨-, hlt, hle⟩ := bounds_of_mem_gaps hsorted hgap
    refine ⟨?_, lt_of_le_of_lt hle (hramWrap p hp)⟩
    intro hzero
    rw [EfiMemoryRange.interval, hzero] at hlt
    exact absurd hlt (lt_irrefl _)
  · have hcovered : covered ((performQuickSort (usableRanges ramPartition)
        compareMemoryRanges).map EfiMemoryRange.interval) =
          covered (ramPartition.map RamPartitionEntry.interval) := by
      rw [← interval_usableRanges]
      exact covered_perm (hpermRanges.map EfiMemoryRange.interval)
    ext x
    rw [hgaps, mem_covered_gapsAll hsorted, hcovered,
      covered_perm (hperm.map EfiMemoryDescriptor.interval)]
    rfl

def mergeSortBy {β : Type} (l : List β) (compare : β → β → ℤ) : List β :=
  l.mergeSort (fun a b => compare a b ≤ 0)

theorem mergeSortBy_sorts {β : Type} {compare : β → β → ℤ} (key : β → ℕ)
    (hkey : ∀ a b, compare a b ≤ 0 ↔ key a ≤ key b) :
    SortsBy (fun l => mergeSortBy l compare) compare := by
  constructor
  · intro l
    exact List.mergeSort_perm l _
  · intro l
    have hsorted := @List.pairwise_mergeSort _ (fun a b => decide (compare a b ≤ 0))
      (by simpa only [hkey, decide_eq_true_eq] using fun a b c => le_trans)
      (by simpa only [hkey, Bool.or_eq_true, decide_eq_true_eq] using fun a b => le_total _ _) l
    exact hsorted.imp of_decide_eq_true

/-- Two partitions out of order, and a descriptor that ends in the first of them. -/
theorem manageRam_exact_straddling :
    ∃ handled, manageRam mergeSortBy 2 (.ok [⟨0x7000, 2⟩])
        (getUsableMemoryRanges true [⟨0x8000, 0x4000⟩, ⟨0x1000, 0x1000⟩]) = some (.ok handled) ∧
      (∀ r ∈ handled, r.length ≠ 0 ∧ NoWrap r.interval) ∧
      handled.Pairwise (fun r s => Disjoint (points r.interval) (points s.interval)) ∧
      covered (handled.map EfiMemoryRange.interval) =
        covered (List.map RamPartitionEntry.interval [⟨0x8000, 0x4000⟩, ⟨0x1000, 0x1000⟩]) \
          covered (List.map EfiMemoryDescriptor.interval [⟨0x7000, 2⟩]) := by
  have hwrap : ∀ p ∈ [RamPartitionEntry.mk 0x8000 0x4000, ⟨0x1000, 0x1000⟩],
      NoWrap p.interval := by
    simp [NoWrap, RamPartitionEntry.interval]
  apply manageRam_exact
  · apply mergeSortBy_sorts (fun d => d.physicalStart.toNat)
    intro d e
    exact compareAddresses_le d.physicalStart e.physicalStart
  · apply mergeSortBy_sorts (fun r => r.address.toNat)
    intro r s
    exact compareAddresses_le r.address s.address
  · decide
  · decide
  · simp [NoWrap, EfiMemoryDescriptor.interval]
  · exact hwrap
  · simp [points, RamPartitionEntry.interval]
  · decide

end ProjectMu
