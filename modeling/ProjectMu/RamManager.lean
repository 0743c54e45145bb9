import ProjectMu.GptFormat
import ProjectMu.IntervalGaps

/-!
# Handing out the free RAM

`manageRam` sorts the memory map and the RAM partitions and sweeps the map once for each
partition, mapping what no descriptor covers. Over partitions and descriptors that do not
wrap around, the sweep is the one that lists the gaps between sorted intervals, so the
mapped ranges are exactly the RAM that the map leaves.
-/

namespace ProjectMu

open IntervalGaps

structure EfiMemoryDescriptor where
  physicalStart : BitVec 64
  numberOfPages : BitVec 64
  deriving DecidableEq, Repr

structure EfiMemoryRange where
  address : BitVec 64
  length : BitVec 64
  deriving DecidableEq, Repr

structure RamPartitionEntry where
  base : BitVec 64
  availableLength : BitVec 64
  deriving DecidableEq, Repr

def efiPagesToSize (pages : BitVec 64) : BitVec 64 := pages <<< 12

/-- The ranges passed to `MapMemoryRegion` so far and one more. -/
def handleRamRange (base length : BitVec 64) (handled : List EfiMemoryRange) :
    List EfiMemoryRange :=
  handled ++ [⟨base, length⟩]

/-- The loop of `parseMemoryRange` from index `i` on. The index has 16 bits, so with more than
65535 descriptors it can run forever; `none` is a loop that the fuel does not complete. -/
def parseMemoryRangeFrom (efiMemoryMap : List EfiMemoryDescriptor) (rangeEnd : BitVec 64) :
    ℕ → BitVec 16 → BitVec 64 → List EfiMemoryRange → Option (List EfiMemoryRange)
  | 0, _, _, _ => none
  | fuel + 1, i, currentRangeBase, handled =>
    let finish :=
      if currentRangeBase < rangeEnd then
        handleRamRange currentRangeBase (rangeEnd - currentRangeBase) handled
      else handled
    match efiMemoryMap[i.toNat]? with
    | none => some finish
    | some descriptor =>
      let regionBase := descriptor.physicalStart
      let regionEnd := descriptor.physicalStart + efiPagesToSize descriptor.numberOfPages
      if rangeEnd ≤ regionBase then some finish
      else if regionEnd ≤ currentRangeBase then
        parseMemoryRangeFrom efiMemoryMap rangeEnd fuel (i + 1) currentRangeBase handled
      else
        let handled :=
          if currentRangeBase < regionBase then
            handleRamRange currentRangeBase (regionBase - currentRangeBase) handled
          else handled
        let currentRangeBase :=
          if currentRangeBase < regionEnd then regionEnd else currentRangeBase
        parseMemoryRangeFrom efiMemoryMap rangeEnd fuel (i + 1) currentRangeBase handled

def parseMemoryRange (fuel : ℕ) (efiMemoryMap : List EfiMemoryDescriptor)
    (rangeBase rangeEnd : BitVec 64) : Option (List EfiMemoryRange) :=
  parseMemoryRangeFrom efiMemoryMap rangeEnd fuel 0 rangeBase []

def compareMemoryRegions (region1 region2 : EfiMemoryDescriptor) : ℤ :=
  if region1.physicalStart < region2.physicalStart then -1
  else if region2.physicalStart < region1.physicalStart then 1
  else 0

def compareMemoryRanges (range1 range2 : EfiMemoryRange) : ℤ :=
  if range1.address < range2.address then -1
  else if range2.address < range1.address then 1
  else 0

/-- The ranges and their count, which has 8 bits. -/
def getUsableMemoryRanges (allocated : Bool) (ramPartition : List RamPartitionEntry) :
    Except EfiError (List EfiMemoryRange × BitVec 8) :=
  if allocated then
    .ok (ramPartition.map fun p => ⟨p.base, p.availableLength⟩,
      BitVec.ofNat 8 ramPartition.length)
  else .error .outOfResources

/-- The ranges passed to `MapMemoryRegion`, from the answers of `GetMemoryMap` and of
`getUsableMemoryRanges`. -/
def manageRam (performQuickSort : {β : Type} → List β → (β → β → ℤ) → List β) (fuel : ℕ)
    (efiMemoryMap : Except EfiError (List EfiMemoryDescriptor))
    (usableMemoryRanges : Except EfiError (List EfiMemoryRange × BitVec 8)) :
    Option (Except EfiError (List EfiMemoryRange)) :=
  match efiMemoryMap, usableMemoryRanges with
  | .error e, _ => some (.error e)
  | .ok _, .error e => some (.error e)
  | .ok efiMemoryMap, .ok (memoryRange, memoryRangeCount) =>
    let efiMemoryMap := performQuickSort efiMemoryMap compareMemoryRegions
    let memoryRange := performQuickSort (memoryRange.take memoryRangeCount.toNat)
      compareMemoryRanges
    (memoryRange.mapM (fun range =>
      parseMemoryRange fuel efiMemoryMap range.address (range.address + range.length))).map
      (fun handled => .ok handled.flatten)

/-- The documented behaviour of a sort with a comparator. -/
structure SortsBy {β : Type} (sort : List β → List β) (compare : β → β → ℤ) : Prop where
  perm : ∀ l, (sort l).Perm l
  sorted : ∀ l, (sort l).Pairwise (fun a b => compare a b ≤ 0)

def EfiMemoryDescriptor.interval (d : EfiMemoryDescriptor) : ℕ × ℕ :=
  (d.physicalStart.toNat, d.physicalStart.toNat + d.numberOfPages.toNat * 4096)

def EfiMemoryRange.interval (r : EfiMemoryRange) : ℕ × ℕ :=
  (r.address.toNat, r.address.toNat + r.length.toNat)

def RamPartitionEntry.interval (p : RamPartitionEntry) : ℕ × ℕ :=
  (p.base.toNat, p.base.toNat + p.availableLength.toNat)

/-- The end of the interval is a 64-bit number. -/
def NoWrap (r : ℕ × ℕ) : Prop := r.2 < 2 ^ 64

theorem EfiMemoryDescriptor.toNat_end {d : EfiMemoryDescriptor} (h : NoWrap d.interval) :
    (d.physicalStart + efiPagesToSize d.numberOfPages).toNat = d.interval.2 := by
  have h : d.physicalStart.toNat + d.numberOfPages.toNat * 4096 < 2 ^ 64 := h
  rw [BitVec.toNat_add, efiPagesToSize, BitVec.toNat_shiftLeft, Nat.shiftLeft_eq]
  change (_ + _ * 4096 % 2 ^ 64) % 2 ^ 64 = d.physicalStart.toNat + d.numberOfPages.toNat * 4096
  rw [Nat.mod_eq_of_lt (by omega : d.numberOfPages.toNat * 4096 < 2 ^ 64), Nat.mod_eq_of_lt h]

theorem EfiMemoryRange.toNat_end {r : EfiMemoryRange} (h : NoWrap r.interval) :
    (r.address + r.length).toNat = r.interval.2 := by
  have h : r.address.toNat + r.length.toNat < 2 ^ 64 := h
  rw [BitVec.toNat_add, Nat.mod_eq_of_lt h]
  rfl

/-- A handled range is the gap between its two bounds. -/
theorem map_interval_handled {lo hi : BitVec 64} :
    ((if lo < hi then handleRamRange lo (hi - lo) [] else []).map EfiMemoryRange.interval) =
      between lo.toNat hi.toNat := by
  unfold between
  by_cases h : lo < hi
  · have hlt : lo.toNat < hi.toNat := h
    rw [if_pos h, if_pos hlt]
    have hsub : (hi - lo).toNat = hi.toNat - lo.toNat := BitVec.toNat_sub_of_le (BitVec.le_of_lt h)
    simp only [handleRamRange, List.nil_append, List.map_cons, List.map_nil,
      EfiMemoryRange.interval, hsub, Nat.add_sub_cancel' hlt.le]
  · have hge : ¬lo.toNat < hi.toNat := h
    rw [if_neg h, if_neg hge]
    rfl

theorem handled_append (c : Prop) [Decidable c] (lo len : BitVec 64)
    (handled : List EfiMemoryRange) :
    (if c then handleRamRange lo len handled else handled) =
      handled ++ (if c then handleRamRange lo len [] else []) := by
  split_ifs
  · rfl
  · exact (List.append_nil handled).symm

/-- The loop lists the gaps that the remaining descriptors leave behind the current base. -/
theorem parseMemoryRangeFrom_gaps {efiMemoryMap : List EfiMemoryDescriptor}
    (hlen : efiMemoryMap.length ≤ 65535) (hw : ∀ d ∈ efiMemoryMap, NoWrap d.interval)
    (rangeEnd : BitVec 64) (fuel : ℕ) (i : BitVec 16) (currentRangeBase : BitVec 64)
    (handled : List EfiMemoryRange) (hi : i.toNat ≤ efiMemoryMap.length)
    (hfuel : efiMemoryMap.length < fuel + i.toNat) :
    ∃ out, parseMemoryRangeFrom efiMemoryMap rangeEnd fuel i currentRangeBase handled =
        some (handled ++ out) ∧
      out.map EfiMemoryRange.interval = gaps rangeEnd.toNat currentRangeBase.toNat
        ((efiMemoryMap.drop i.toNat).map EfiMemoryDescriptor.interval) := by
  induction fuel generalizing i currentRangeBase handled with
  | zero => omega
  | succ fuel ih =>
    rw [parseMemoryRangeFrom]
    dsimp only
    rw [handled_append]
    have hlast := @map_interval_handled currentRangeBase rangeEnd
    rcases hi.lt_or_eq with hlt | heq
    · set d := efiMemoryMap[i.toNat] with hd
      have hwrap := hw d (List.getElem_mem hlt)
      have hend := EfiMemoryDescriptor.toNat_end hwrap
      have hnext : (i + 1).toNat = i.toNat + 1 := by
        rw [BitVec.toNat_add]
        exact Nat.mod_eq_of_lt (by change i.toNat + 1 < 65536; omega)
      rw [List.getElem?_eq_getElem hlt, List.drop_eq_getElem_cons hlt, List.map_cons, gaps, ← hd,
        ← hnext]
      dsimp only
      rw [← hend]
      change ∃ out, (if rangeEnd ≤ d.physicalStart then _ else _) = _ ∧ _ =
        if rangeEnd.toNat ≤ d.physicalStart.toNat then _ else _
      by_cases hstop : rangeEnd ≤ d.physicalStart
      · rw [if_pos hstop, if_pos (show rangeEnd.toNat ≤ d.physicalStart.toNat from hstop)]
        exact ⟨_, rfl, hlast⟩
      rw [if_neg hstop, if_neg (show ¬rangeEnd.toNat ≤ d.physicalStart.toNat from hstop)]
      set regionEnd := d.physicalStart + efiPagesToSize d.numberOfPages with hregion
      by_cases hskip : regionEnd ≤ currentRangeBase
      · rw [if_pos hskip, if_pos (show regionEnd.toNat ≤ currentRangeBase.toNat from hskip)]
        exact ih (i + 1) currentRangeBase handled (by omega) (by omega)
      · have hpast : currentRangeBase < regionEnd := BitVec.not_le.mp hskip
        rw [if_neg hskip, if_neg (show ¬regionEnd.toNat ≤ currentRangeBase.toNat from hskip),
          if_pos hpast, handled_append]
        obtain ⟨out, hout, hgaps⟩ := ih (i + 1) regionEnd
          (handled ++ if currentRangeBase < d.physicalStart then
            handleRamRange currentRangeBase (d.physicalStart - currentRangeBase) [] else [])
          (by omega) (by omega)
        refine ⟨_, by rw [hout, List.append_assoc], ?_⟩
        rw [List.map_append, map_interval_handled, hgaps]
        rfl
    · rw [heq, List.getElem?_eq_none le_rfl, List.drop_length, List.map_nil, gaps]
      exact ⟨_, rfl, hlast⟩

end ProjectMu
