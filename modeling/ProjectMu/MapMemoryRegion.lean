import ProjectMu.RamManagerExact

/-!
# Mapping the ranges of the RAM manager

`mapMemoryRegion` adds a range to the memory space, sets the attributes of its pages and then its
attributes in the memory space, and undoes nothing. A call that fails behind the first step leaves
the range half mapped. In a run without such a call, over ranges that are not in the memory space
before, each range is mapped or still absent.
-/

namespace ProjectMu.MapMemoryRegion

open IntervalGaps

def efiUnsupported : EfiError := .driver 0x8000000000000003

def efiConventionalMemory : BitVec 32 := 7
def efiMemoryMappedIO : BitVec 32 := 11
def efiMemoryUC : BitVec 64 := 1
def efiMemoryWB : BitVec 64 := 8

inductive GcdMemoryType
  | systemMemory
  | memoryMappedIo
  | other (code : BitVec 32)
  deriving DecidableEq, Repr

inductive ArmMemoryRegionAttribute
  | writeBack
  | device
  | other (code : BitVec 64)
  deriving DecidableEq, Repr

structure MemorySpaceDescriptor where
  gcdMemoryType : GcdMemoryType
  capabilities : BitVec 64
  attributes : BitVec 64
  deriving DecidableEq, Repr

/-- What the GCD records for an address, if that is part of the memory space. -/
abbrev MemorySpace := ℕ → Option MemorySpaceDescriptor

abbrev PageAttributes := ℕ → ArmMemoryRegionAttribute

structure MemoryState where
  memorySpace : MemorySpace
  pageAttributes : PageAttributes

/-- The value at the addresses of the range becomes `f` of what it was. -/
def onRange {β : Type} (address length : BitVec 64) (f : β → β) (m : ℕ → β) : ℕ → β := fun x =>
  if address.toNat ≤ x ∧ x < address.toNat + length.toNat then f (m x) else m x

/-- The three services. Those of the GCD change nothing if they fail, while
`armSetMemoryAttributes` may have changed any page. -/
structure MemoryServices where
  addMemorySpace : GcdMemoryType → BitVec 64 → BitVec 64 → BitVec 64 → MemorySpace →
    Except EfiError MemorySpace
  armSetMemoryAttributes : BitVec 64 → BitVec 64 → ArmMemoryRegionAttribute → BitVec 64 →
    PageAttributes → Except EfiError Unit × PageAttributes
  setMemorySpaceAttributes : BitVec 64 → BitVec 64 → BitVec 64 → MemorySpace →
    Except EfiError MemorySpace
  addMemorySpace_ok : ∀ {memoryType address length capabilities before after},
    addMemorySpace memoryType address length capabilities before = .ok after →
      length ≠ 0 ∧
      (∀ x, address.toNat ≤ x → x < address.toNat + length.toNat → before x = none) ∧
      after = onRange address length (fun _ => some ⟨memoryType, capabilities, 0⟩) before
  armSetMemoryAttributes_ok : ∀ {address length attributes mask before after},
    armSetMemoryAttributes address length attributes mask before = (.ok (), after) →
      after = onRange address length (fun _ => attributes) before
  setMemorySpaceAttributes_ok : ∀ {address length attributes before after},
    setMemorySpaceAttributes address length attributes before = .ok after →
      after = onRange address length
        (Option.map fun descriptor => { descriptor with attributes := attributes }) before

/-- The type of the memory space and the two attributes of a region. -/
def regionDetails (type : BitVec 32) :
    Option (GcdMemoryType × ArmMemoryRegionAttribute × BitVec 64) :=
  if type = efiConventionalMemory then some (.systemMemory, .writeBack, efiMemoryWB)
  else if type = efiMemoryMappedIO then some (.memoryMappedIo, .device, efiMemoryUC)
  else none

def mapMemoryRegion (services : MemoryServices) (address length : BitVec 64) (type : BitVec 32)
    (s : MemoryState) : Except EfiError Unit × MemoryState :=
  match regionDetails type with
  | none => (.error efiUnsupported, s)
  | some (memoryType, armAttribute, gcdAttribute) =>
    match services.addMemorySpace memoryType address length 0xF s.memorySpace with
    | .error e => (.error e, s)
    | .ok memorySpace =>
      match services.armSetMemoryAttributes address length armAttribute 0 s.pageAttributes with
      | (.error e, pageAttributes) => (.error e, ⟨memorySpace, pageAttributes⟩)
      | (.ok _, pageAttributes) =>
        match services.setMemorySpaceAttributes address length gcdAttribute memorySpace with
        | .error e => (.error e, ⟨memorySpace, pageAttributes⟩)
        | .ok memorySpace => (.ok (), ⟨memorySpace, pageAttributes⟩)

/-- An error is logged and the next range is handled. -/
def handleRamRange (services : MemoryServices) (s : MemoryState) (range : EfiMemoryRange) :
    MemoryState :=
  (mapMemoryRegion services range.address range.length efiConventionalMemory s).2

/-- The memory after the ranges that `manageRam` hands over. -/
def handleRamRanges (services : MemoryServices) (s : MemoryState)
    (handled : List EfiMemoryRange) : MemoryState :=
  handled.foldl (handleRamRange services) s

def AtomicCall (services : MemoryServices) (address length : BitVec 64) (type : BitVec 32)
    (s : MemoryState) : Prop :=
  ∀ e s', mapMemoryRegion services address length type s = (.error e, s') → s' = s

/-- Once the range is added, neither of the other services fails. -/
def FinishesOnceAdded (services : MemoryServices) (address length : BitVec 64) (type : BitVec 32)
    (s : MemoryState) : Prop :=
  ∀ memoryType armAttribute gcdAttribute memorySpace,
    regionDetails type = some (memoryType, armAttribute, gcdAttribute) →
    services.addMemorySpace memoryType address length 0xF s.memorySpace = .ok memorySpace →
      (services.armSetMemoryAttributes address length armAttribute 0 s.pageAttributes).1 = .ok () ∧
      ∃ after, services.setMemorySpaceAttributes address length gcdAttribute memorySpace = .ok after

/-- Each call of the run finishes once its range is added. -/
def FinishesRun (services : MemoryServices) : MemoryState → List EfiMemoryRange → Prop
  | _, [] => True
  | s, range :: handled =>
    FinishesOnceAdded services range.address range.length efiConventionalMemory s ∧
      FinishesRun services (handleRamRange services s range) handled

/-- System memory of all cache types, write-back in the memory space and in the page tables. -/
def FullyMapped (range : EfiMemoryRange) (s : MemoryState) : Prop :=
  ∀ x ∈ points range.interval,
    s.memorySpace x = some ⟨.systemMemory, 0xF, efiMemoryWB⟩ ∧ s.pageAttributes x = .writeBack

def AbsentOn (range : EfiMemoryRange) (s : MemoryState) : Prop :=
  ∀ x ∈ points range.interval, s.memorySpace x = none

def SameOn (range : EfiMemoryRange) (s t : MemoryState) : Prop :=
  ∀ x ∈ points range.interval,
    t.memorySpace x = s.memorySpace x ∧ t.pageAttributes x = s.pageAttributes x

variable {services : MemoryServices} {address length : BitVec 64} {type : BitVec 32}
  {s s' : MemoryState} {range : EfiMemoryRange} {handled : List EfiMemoryRange} {x : ℕ}

theorem onRange_inside {β : Type} {f : β → β} {m : ℕ → β}
    (h : address.toNat ≤ x ∧ x < address.toNat + length.toNat) :
    onRange address length f m x = f (m x) :=
  if_pos h

theorem onRange_outside {β : Type} {f : β → β} {m : ℕ → β}
    (h : ¬(address.toNat ≤ x ∧ x < address.toNat + length.toNat)) :
    onRange address length f m x = m x :=
  if_neg h

/-- The memory space is not the same after a range was added. -/
theorem ne_of_addMemorySpace {memoryType : GcdMemoryType} {capabilities : BitVec 64}
    {before after : MemorySpace}
    (h : services.addMemorySpace memoryType address length capabilities before = .ok after) :
    after ≠ before := by
  obtain ⟨hlength, habsent, hafter⟩ := services.addMemorySpace_ok h
  have hpos : 0 < length.toNat := Nat.pos_of_ne_zero fun hzero =>
    hlength (BitVec.eq_of_toNat_eq hzero)
  intro heq
  have hnone := habsent address.toNat le_rfl (by omega)
  rw [← heq, hafter, onRange_inside ⟨le_rfl, by omega⟩] at hnone
  cases hnone

/-- A call that finishes once its range is added maps the range or leaves the memory as it was. -/
theorem mapMemoryRegion_of_finishes
    (hfinish : FinishesOnceAdded services address length type s) :
    (∃ e, mapMemoryRegion services address length type s = (.error e, s)) ∨
      ∃ memoryType armAttribute gcdAttribute,
        regionDetails type = some (memoryType, armAttribute, gcdAttribute) ∧
        mapMemoryRegion services address length type s = (.ok (),
          ⟨onRange address length (fun _ => some ⟨memoryType, 0xF, gcdAttribute⟩) s.memorySpace,
            onRange address length (fun _ => armAttribute) s.pageAttributes⟩) := by
  rw [mapMemoryRegion]
  rcases hdetails : regionDetails type with _ | ⟨memoryType, armAttribute, gcdAttribute⟩
  · exact .inl ⟨_, rfl⟩
  dsimp only
  cases hadd : services.addMemorySpace memoryType address length 0xF s.memorySpace with
  | error e => exact .inl ⟨e, rfl⟩
  | ok memorySpace =>
    obtain ⟨harm, after, hset⟩ := hfinish _ _ _ _ hdetails hadd
    obtain ⟨pages, hpages⟩ : ∃ pages, services.armSetMemoryAttributes address length
        armAttribute 0 s.pageAttributes = (.ok (), pages) := ⟨_, Prod.ext harm rfl⟩
    obtain ⟨-, -, hmemorySpace⟩ := services.addMemorySpace_ok hadd
    have hafter : after = onRange address length
        (fun _ => some ⟨memoryType, 0xF, gcdAttribute⟩) s.memorySpace := by
      funext x
      rw [services.setMemorySpaceAttributes_ok hset, hmemorySpace]
      by_cases hx : address.toNat ≤ x ∧ x < address.toNat + length.toNat
      · rw [onRange_inside hx, onRange_inside hx, onRange_inside hx]
        rfl
      · rw [onRange_outside hx, onRange_outside hx, onRange_outside hx]
    refine .inr ⟨_, _, _, rfl, ?_⟩
    dsimp only
    rw [hpages]
    dsimp only
    rw [hset, hafter, services.armSetMemoryAttributes_ok hpages]

/-- A failing call leaves the memory as it was exactly if no service fails behind the first. -/
theorem atomicCall_iff : AtomicCall services address length type s ↔
    FinishesOnceAdded services address length type s := by
  constructor
  · intro hatomic memoryType armAttribute gcdAttribute memorySpace hdetails hadd
    have hchanged := ne_of_addMemorySpace hadd
    rw [AtomicCall, mapMemoryRegion, hdetails] at hatomic
    dsimp only at hatomic
    rw [hadd] at hatomic
    rcases harm : services.armSetMemoryAttributes address length armAttribute 0 s.pageAttributes
      with ⟨e | u, pages⟩
    · rw [harm] at hatomic
      exact absurd (congrArg MemoryState.memorySpace (hatomic e _ rfl)) hchanged
    · rw [harm] at hatomic
      cases hset : services.setMemorySpaceAttributes address length gcdAttribute memorySpace with
      | error e =>
        dsimp only at hatomic
        rw [hset] at hatomic
        exact absurd (congrArg MemoryState.memorySpace (hatomic e _ rfl)) hchanged
      | ok after => exact ⟨rfl, after, rfl⟩
  · intro hfinish e s' hcall
    obtain ⟨e', herror⟩ | ⟨_, _, _, -, hok⟩ := mapMemoryRegion_of_finishes hfinish
    · rw [herror] at hcall
      exact (Prod.mk.inj hcall).2.symm
    · rw [hok] at hcall
      cases (Prod.mk.inj hcall).1

/-- The memory with a range mapped. -/
def MemoryState.mapped (s : MemoryState) (range : EfiMemoryRange) : MemoryState where
  memorySpace := onRange range.address range.length
    (fun _ => some ⟨.systemMemory, 0xF, efiMemoryWB⟩) s.memorySpace
  pageAttributes := onRange range.address range.length (fun _ => .writeBack) s.pageAttributes

theorem fullyMapped_mapped : FullyMapped range (s.mapped range) := by
  intro x hx
  rw [MemoryState.mapped]
  dsimp only
  rw [onRange_inside hx, onRange_inside hx]
  exact ⟨rfl, rfl⟩

theorem sameOn_refl : SameOn range s s := fun _ _ => ⟨rfl, rfl⟩

theorem SameOn.trans {t u : MemoryState} (h : SameOn range s t) (h' : SameOn range t u) :
    SameOn range s u := fun x hx =>
  ⟨(h' x hx).1.trans (h x hx).1, (h' x hx).2.trans (h x hx).2⟩

theorem FullyMapped.of_sameOn {t : MemoryState} (h : FullyMapped range s)
    (h' : SameOn range s t) : FullyMapped range t := fun x hx =>
  ⟨(h' x hx).1.trans (h x hx).1, (h' x hx).2.trans (h x hx).2⟩

theorem AbsentOn.of_sameOn {t : MemoryState} (h : AbsentOn range s) (h' : SameOn range s t) :
    AbsentOn range t := fun x hx => (h' x hx).1.trans (h x hx)

theorem sameOn_mapped {other : EfiMemoryRange}
    (hdisjoint : Disjoint (points range.interval) (points other.interval)) :
    SameOn range s (s.mapped other) := by
  intro x hx
  have hout := Set.disjoint_left.mp hdisjoint hx
  rw [MemoryState.mapped]
  dsimp only
  rw [onRange_outside hout, onRange_outside hout]
  exact ⟨rfl, rfl⟩

/-- A call of a run maps its range or leaves the memory as it was. -/
theorem handleRamRange_of_finishes
    (hfinish : FinishesOnceAdded services range.address range.length efiConventionalMemory s) :
    handleRamRange services s range = s ∨ handleRamRange services s range = s.mapped range := by
  rw [handleRamRange]
  obtain ⟨e, herror⟩ | ⟨memoryType, armAttribute, gcdAttribute, hdetails, hok⟩ :=
    mapMemoryRegion_of_finishes hfinish
  · exact .inl (by rw [herror])
  · have hconventional : regionDetails efiConventionalMemory =
        some (.systemMemory, .writeBack, efiMemoryWB) := rfl
    rw [hconventional] at hdetails
    cases hdetails
    exact .inr (by rw [hok]; rfl)

theorem sameOn_handleRamRange {other : EfiMemoryRange}
    (hfinish : FinishesOnceAdded services other.address other.length efiConventionalMemory s)
    (hdisjoint : Disjoint (points range.interval) (points other.interval)) :
    SameOn range s (handleRamRange services s other) := by
  obtain heq | heq := handleRamRange_of_finishes hfinish
  · rw [heq]
    exact sameOn_refl
  · rw [heq]
    exact sameOn_mapped hdisjoint

/-- A run changes nothing outside of its ranges. -/
theorem sameOn_handleRamRanges (hfinish : FinishesRun services s handled)
    (hdisjoint : ∀ r ∈ handled, Disjoint (points range.interval) (points r.interval)) :
    SameOn range s (handleRamRanges services s handled) := by
  induction handled generalizing s with
  | nil => exact sameOn_refl
  | cons r handled ih =>
    obtain ⟨hfirst, hrest⟩ := List.forall_mem_cons.mp hdisjoint
    exact (sameOn_handleRamRange hfinish.1 hfirst).trans (ih hfinish.2 hrest)

/-- After a run each of its ranges is mapped or as it was. -/
theorem fullyMapped_or_sameOn (hfinish : FinishesRun services s handled)
    (hdisjoint : handled.Pairwise
      (fun r t => Disjoint (points r.interval) (points t.interval))) :
    ∀ r ∈ handled, FullyMapped r (handleRamRanges services s handled) ∨
      SameOn r s (handleRamRanges services s handled) := by
  induction handled generalizing s with
  | nil => exact fun r hr => absurd hr List.not_mem_nil
  | cons range handled ih =>
    obtain ⟨hfirst, hrest⟩ := List.pairwise_cons.mp hdisjoint
    have hbehind := sameOn_handleRamRanges hfinish.2 hfirst
    refine List.forall_mem_cons.mpr ⟨?_, ?_⟩
    · obtain heq | heq := handleRamRange_of_finishes hfinish.1
      · rw [heq] at hbehind
        exact .inr (by rwa [handleRamRanges, List.foldl_cons, heq])
      · rw [heq] at hbehind
        refine .inl ?_
        rw [handleRamRanges, List.foldl_cons, heq]
        exact fullyMapped_mapped.of_sameOn hbehind
    · intro r hr
      obtain hmapped | hsame := ih hfinish.2 hrest r hr
      · exact .inl hmapped
      · exact .inr ((sameOn_handleRamRange hfinish.1 (hfirst r hr).symm).trans hsame)

/-- After a run each of its ranges that was not in the memory space is mapped or still absent, and
its pages are as they were. -/
theorem fullyMapped_or_absentOn (hfinish : FinishesRun services s handled)
    (habsent : ∀ r ∈ handled, AbsentOn r s)
    (hdisjoint : handled.Pairwise
      (fun r t => Disjoint (points r.interval) (points t.interval))) :
    ∀ r ∈ handled, FullyMapped r (handleRamRanges services s handled) ∨
      AbsentOn r (handleRamRanges services s handled) ∧
        SameOn r s (handleRamRanges services s handled) := by
  intro r hr
  obtain hmapped | hsame := fullyMapped_or_sameOn hfinish hdisjoint r hr
  · exact .inl hmapped
  · exact .inr ⟨(habsent r hr).of_sameOn hsame, hsame⟩

/-- The ranges that `manageRam` hands over for partitions that are apart, and that are not in the
memory space, are mapped or absent if each call finishes once its range is added. -/
theorem manageRam_mapped {performQuickSort : {β : Type} → List β → (β → β → ℤ) → List β}
    (hregions : SortsBy (fun l => performQuickSort l compareMemoryRegions) compareMemoryRegions)
    (hranges : SortsBy (fun l => performQuickSort l compareMemoryRanges) compareMemoryRanges)
    {efiMemoryMap : List EfiMemoryDescriptor} {ramPartition : List RamPartitionEntry}
    (hmap : efiMemoryMap.length ≤ 65535) (hcount : ramPartition.length ≤ 255)
    (hmapWrap : ∀ d ∈ efiMemoryMap, NoWrap d.interval)
    (hramWrap : ∀ p ∈ ramPartition, NoWrap p.interval)
    (hdisjoint : ramPartition.Pairwise
      (fun p q => Disjoint (points p.interval) (points q.interval)))
    {fuel : ℕ} (hfuel : efiMemoryMap.length < fuel) :
    ∃ handled, manageRam performQuickSort fuel (.ok efiMemoryMap)
        (getUsableMemoryRanges true ramPartition) = some (.ok handled) ∧
      (FinishesRun services s handled → (∀ r ∈ handled, AbsentOn r s) → ∀ r ∈ handled,
        FullyMapped r (handleRamRanges services s handled) ∨
          AbsentOn r (handleRamRanges services s handled) ∧
            SameOn r s (handleRamRanges services s handled)) := by
  obtain ⟨handled, hmanage, hgaps⟩ := manageRam_gaps hregions hranges hmap hcount hmapWrap
    hramWrap hfuel
  have hapart := pairwise_of_gaps hregions hranges hdisjoint hgaps
  exact ⟨handled, hmanage, fun hfinish habsent => fullyMapped_or_absentOn hfinish habsent hapart⟩

/-- A call is atomic exactly if no service fails behind the first, and after a run of such calls
over ranges that were absent each range is mapped or absent. -/
theorem mapMemoryRegion_atomic (services : MemoryServices) :
    (∀ address length type s, AtomicCall services address length type s ↔
      FinishesOnceAdded services address length type s) ∧
    ∀ s (handled : List EfiMemoryRange), FinishesRun services s handled →
      (∀ r ∈ handled, AbsentOn r s) →
      handled.Pairwise (fun r t => Disjoint (points r.interval) (points t.interval)) →
      ∀ r ∈ handled, FullyMapped r (handleRamRanges services s handled) ∨
        AbsentOn r (handleRamRanges services s handled) ∧
          SameOn r s (handleRamRanges services s handled) :=
  ⟨fun _ _ _ _ => atomicCall_iff, fun _ _ hfinish habsent hdisjoint =>
    fullyMapped_or_absentOn hfinish habsent hdisjoint⟩

/-- Services of which only `armSetMemoryAttributes` may fail on a range that is not yet there. -/
def servicesWith (armStatus : Except EfiError Unit) : MemoryServices where
  addMemorySpace memoryType address length capabilities before :=
    if length = 0 then .error .invalidParameter
    else if (List.range length.toNat).all fun i => (before (address.toNat + i)).isNone then
      .ok (onRange address length (fun _ => some ⟨memoryType, capabilities, 0⟩) before)
    else .error (.driver 0x800000000000000F)
  armSetMemoryAttributes address length attributes _ before :=
    (armStatus, onRange address length (fun _ => attributes) before)
  setMemorySpaceAttributes address length attributes before :=
    .ok (onRange address length
      (Option.map fun descriptor => { descriptor with attributes := attributes }) before)
  addMemorySpace_ok h := by
    obtain ⟨hlength, h⟩ := ite_error_eq_ok.mp h
    split at h
    next hall =>
      refine ⟨hlength, fun x hle hlt => ?_, (Except.ok.inj h).symm⟩
      have hnone := List.all_eq_true.mp hall _
        (List.mem_range.mpr (Nat.sub_lt_left_of_lt_add hle hlt))
      rw [Nat.add_sub_cancel' hle] at hnone
      exact Option.isNone_iff_eq_none.mp hnone
    next => cases h
  armSetMemoryAttributes_ok h := (Prod.mk.inj h).2.symm
  setMemorySpaceAttributes_ok h := (Except.ok.inj h).symm

/-- Nothing in the memory space, and pages of devices. -/
def noMemory : MemoryState := ⟨fun _ => none, fun _ => .device⟩

theorem twoRanges_mapped : ∀ r ∈ [EfiMemoryRange.mk 0x1000 0x1000, ⟨0x4000, 0x2000⟩],
    FullyMapped r (handleRamRanges (servicesWith (.ok ())) noMemory
      [⟨0x1000, 0x1000⟩, ⟨0x4000, 0x2000⟩]) ∨
    AbsentOn r (handleRamRanges (servicesWith (.ok ())) noMemory
      [⟨0x1000, 0x1000⟩, ⟨0x4000, 0x2000⟩]) ∧
    SameOn r noMemory (handleRamRanges (servicesWith (.ok ())) noMemory
      [⟨0x1000, 0x1000⟩, ⟨0x4000, 0x2000⟩]) := by
  have hfinish (address length : BitVec 64) (type : BitVec 32) (s : MemoryState) :
      FinishesOnceAdded (servicesWith (.ok ())) address length type s :=
    fun _ _ _ _ _ _ => ⟨rfl, _, rfl⟩
  refine (mapMemoryRegion_atomic (servicesWith (.ok ()))).2 noMemory _
    ⟨hfinish _ _ _ _, hfinish _ _ _ _, trivial⟩ (fun _ _ _ _ => rfl) ?_
  simp [points, EfiMemoryRange.interval]

/-- No memory for the page tables behind a range that was added. -/
theorem mapMemoryRegion_not_atomic :
    ¬AtomicCall (servicesWith (.error .outOfResources)) 0x1000 0x1000 efiConventionalMemory
      noMemory := by
  intro hatomic
  have hadd : (servicesWith (.error .outOfResources)).addMemorySpace .systemMemory 0x1000 0x1000
      0xF noMemory.memorySpace =
        .ok (onRange 0x1000 0x1000 (fun _ => some ⟨.systemMemory, 0xF, 0⟩) fun _ => none) := by
    simp [servicesWith, noMemory]
  cases (atomicCall_iff.mp hatomic _ _ _ _ rfl hadd).1

end ProjectMu.MapMemoryRegion
