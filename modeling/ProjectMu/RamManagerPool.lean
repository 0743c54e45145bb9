import ProjectMu.PoolUse
import ProjectMu.RamManagerExact

/-!
# The buffers of the RAM manager

`manageRam` frees the memory map and the ranges on every way out, the ranges also when nothing was
stored in the local variable that points to them. The partitions come from the constructor of the
platform library, and `getUsableMemoryRanges` frees them, also when the constructor failed before it
allocated their buffer.
-/

namespace ProjectMu.RamManagerPool

open PoolUse

abbrev Pointer := BitVec 64

def null : Pointer := 0

def efiBufferTooSmall : EfiError := .driver 0x8000000000000005

/-- The answers to the three allocations of a run. None is made after a buffer was freed, so the
buffers are apart from each other and from `NULL`. -/
structure PoolAnswers where
  ramPartition : Option Pointer
  efiMemoryMap : Option Pointer
  localRange : Option Pointer
  apart : (null :: [ramPartition, efiMemoryMap, localRange].reduceOption).Nodup

/-- The answers of the RAM partition protocol, and what the static variables read as where it did
not give the partitions. -/
structure PartitionAnswers where
  locateProtocol : Except EfiError Unit
  count : Except EfiError Unit
  partitions : Except EfiError (List RamPartitionEntry)
  leftover : List RamPartitionEntry

/-- The answers to the two calls of `GetMemoryMap`. -/
structure MapAnswers where
  size : Except EfiError Unit
  map : Except EfiError (List EfiMemoryDescriptor)

/-- The pool and the static pointers. -/
structure RamManagerState where
  pool : List (PoolEvent Pointer)
  ramPartition : Pointer
  efiMemoryMap : Pointer

def RamManagerState.initial : RamManagerState := ⟨[], null, null⟩

def allocateZeroPool (answer : Option Pointer) (pool : List (PoolEvent Pointer)) :
    Pointer × List (PoolEvent Pointer) :=
  match answer with
  | none => (null, pool)
  | some buffer => (buffer, .allocate buffer :: pool)

def RamManagerState.freePool (s : RamManagerState) (buffer : Pointer) : RamManagerState :=
  { s with pool := .free buffer :: s.pool }

/-- An answer that is not an error, or that asks for a larger buffer. -/
def sizeIsKnown (answer : Except EfiError Unit) : Bool :=
  answer = .ok () ∨ answer = .error efiBufferTooSmall

/-- The constructor of the platform library. -/
def getRamPartitions (answers : PartitionAnswers) (pool : PoolAnswers) (s : RamManagerState) :
    Except EfiError (List RamPartitionEntry) × RamManagerState :=
  match answers.locateProtocol with
  | .error e => (.error e, s)
  | .ok () =>
    match answers.count, sizeIsKnown answers.count with
    | .error e, false => (.error e, s)
    | _, _ =>
      let (ramPartition, log) := allocateZeroPool pool.ramPartition s.pool
      let s := { s with pool := log, ramPartition := ramPartition }
      if ramPartition = null then (.error .outOfResources, s)
      else (answers.partitions, s)

def getEfiMemoryMap (answers : MapAnswers) (pool : PoolAnswers) (s : RamManagerState) :
    Except EfiError (List EfiMemoryDescriptor) × RamManagerState :=
  match answers.size, sizeIsKnown answers.size with
  | .error e, false => (.error e, s)
  | _, _ =>
    let (efiMemoryMap, log) := allocateZeroPool pool.efiMemoryMap s.pool
    let s := { s with pool := log, efiMemoryMap := efiMemoryMap }
    if efiMemoryMap = null then (.error .outOfResources, s)
    else (answers.map, s)

/-- The ranges, the pointer to them, which only a success assigns, and the state. -/
def getUsableMemoryRanges (pool : PoolAnswers) (partitions : List RamPartitionEntry)
    (memoryRange : Pointer) (s : RamManagerState) :
    Except EfiError (List EfiMemoryRange × BitVec 8) × Pointer × RamManagerState :=
  let (localRange, log) := allocateZeroPool pool.localRange s.pool
  let s := { s with pool := log }
  let memoryRange := if localRange = null then memoryRange else localRange
  (ProjectMu.getUsableMemoryRanges (localRange ≠ null) partitions, memoryRange,
    s.freePool s.ramPartition)

/-- The code behind the label `cleanup`. -/
def cleanup (memoryRange : Pointer) (s : RamManagerState) : RamManagerState :=
  let s := if s.efiMemoryMap ≠ null then s.freePool s.efiMemoryMap else s
  if memoryRange ≠ null then s.freePool memoryRange else s

/-- The result and the state, for what `memoryRange` holds at the entry. Without a result the
sweep over the memory map did not end, and nothing is cleaned up. -/
def manageRam (performQuickSort : {β : Type} → List β → (β → β → ℤ) → List β) (fuel : ℕ)
    (answers : MapAnswers) (pool : PoolAnswers) (partitions : List RamPartitionEntry)
    (memoryRange : Pointer) (s : RamManagerState) :
    Option (Except EfiError (List EfiMemoryRange)) × RamManagerState :=
  let (efiMemoryMap, s) := getEfiMemoryMap answers pool s
  match efiMemoryMap with
  | .error e => (some (.error e), cleanup memoryRange s)
  | .ok efiMemoryMap =>
    let (usableMemoryRanges, memoryRange, s) := getUsableMemoryRanges pool partitions memoryRange s
    let handled := ProjectMu.manageRam performQuickSort fuel (.ok efiMemoryMap) usableMemoryRanges
    (handled, if handled.isSome then cleanup memoryRange s else s)

/-- The constructor and the entry point of the driver. The status of a constructor is asserted
only, so that a release build goes on after an error. -/
def ramManagerEntry (performQuickSort : {β : Type} → List β → (β → β → ℤ) → List β) (fuel : ℕ)
    (partitionAnswers : PartitionAnswers) (answers : MapAnswers) (pool : PoolAnswers)
    (memoryRange : Pointer) :
    Option (Except EfiError (List EfiMemoryRange)) × RamManagerState :=
  let (constructed, s) := getRamPartitions partitionAnswers pool .initial
  let partitions := match constructed with
    | .ok partitions => partitions
    | .error _ => partitionAnswers.leftover
  manageRam performQuickSort fuel answers pool partitions memoryRange s

/-- The constructor gets as far as the buffer of the partitions. -/
structure PartitionsAllocated (answers : PartitionAnswers) (pool : PoolAnswers) : Prop where
  locateProtocol : answers.locateProtocol = .ok ()
  count : sizeIsKnown answers.count = true
  allocated : pool.ramPartition.isSome

/-- `GetEfiMemoryMap` succeeds. -/
structure MapRead (answers : MapAnswers) (pool : PoolAnswers) : Prop where
  size : sizeIsKnown answers.size = true
  allocated : pool.efiMemoryMap.isSome
  map : answers.map.toOption.isSome

/-- What is freed is a buffer of this run. Where the memory map is read, this is the buffer of the
partitions, and the ranges are assigned or `NULL`. Otherwise the ranges are `NULL`, or their pointer
happens to hold the buffer of the partitions, which nothing else frees then. -/
structure OwnsBuffers (partitionAnswers : PartitionAnswers) (answers : MapAnswers)
    (pool : PoolAnswers) (memoryRange : Pointer) : Prop where
  mapRead : MapRead answers pool →
    PartitionsAllocated partitionAnswers pool ∧ (memoryRange = null ∨ pool.localRange.isSome)
  mapNotRead : ¬MapRead answers pool →
    memoryRange = null ∨
      PartitionsAllocated partitionAnswers pool ∧ pool.ramPartition = some memoryRange

variable {performQuickSort : {β : Type} → List β → (β → β → ℤ) → List β} {fuel : ℕ}
  {partitionAnswers : PartitionAnswers} {answers : MapAnswers} {pool : PoolAnswers}
  {partitions : List RamPartitionEntry} {memoryRange : Pointer} {s : RamManagerState}

theorem eq_error_of_not_sizeIsKnown {answer : Except EfiError Unit}
    (h : sizeIsKnown answer = false) : ∃ e, answer = .error e := by
  cases answer with
  | error e => exact ⟨e, rfl⟩
  | ok _ => exact absurd h (by simp [sizeIsKnown])

theorem exists_ok {β : Type} {answer : Except EfiError β} (h : answer.toOption.isSome) :
    ∃ a, answer = .ok a := by
  cases answer with
  | error e => exact absurd h Bool.false_ne_true
  | ok a => exact ⟨a, rfl⟩

namespace PoolAnswers

theorem ne_null (pool : PoolAnswers) {buffer : Pointer}
    (h : some buffer ∈ [pool.ramPartition, pool.efiMemoryMap, pool.localRange]) :
    buffer ≠ null := by
  rintro rfl
  exact (List.nodup_cons.mp pool.apart).1 (List.reduceOption_mem_iff.mpr h)

theorem ramPartition_ne_null {buffer : Pointer} (h : pool.ramPartition = some buffer) :
    buffer ≠ null := pool.ne_null (by simp [h])

theorem efiMemoryMap_ne_null {buffer : Pointer} (h : pool.efiMemoryMap = some buffer) :
    buffer ≠ null := pool.ne_null (by simp [h])

theorem localRange_ne_null {buffer : Pointer} (h : pool.localRange = some buffer) :
    buffer ≠ null := pool.ne_null (by simp [h])

theorem efiMemoryMap_ne_ramPartition {map partitions : Pointer}
    (hmap : pool.efiMemoryMap = some map) (hpartitions : pool.ramPartition = some partitions) :
    map ≠ partitions := by
  have hnodup := pool.apart.of_cons
  rw [hpartitions, hmap, List.reduceOption_cons_of_some, List.reduceOption_cons_of_some] at hnodup
  exact (List.ne_of_not_mem_cons (List.nodup_cons.mp hnodup).1).symm

theorem localRange_ne {range map partitions : Pointer} (hrange : pool.localRange = some range)
    (hmap : pool.efiMemoryMap = some map) (hpartitions : pool.ramPartition = some partitions) :
    range ≠ map ∧ range ≠ partitions := by
  have hnodup := pool.apart.of_cons
  rw [hpartitions, hmap, hrange] at hnodup
  have hall : [partitions, map, range].Nodup := hnodup
  rw [List.nodup_cons, List.nodup_cons] at hall
  refine ⟨?_, ?_⟩
  · rintro rfl
    exact hall.2.1 List.mem_cons_self
  · rintro rfl
    exact hall.1 (List.mem_cons_of_mem _ List.mem_cons_self)

end PoolAnswers

theorem getRamPartitions_of_allocated (h : PartitionsAllocated partitionAnswers pool) :
    ∃ buffer, pool.ramPartition = some buffer ∧
      (getRamPartitions partitionAnswers pool .initial).2 = ⟨[.allocate buffer], buffer, null⟩ := by
  obtain ⟨buffer, hbuffer⟩ := Option.isSome_iff_exists.mp h.allocated
  refine ⟨buffer, hbuffer, ?_⟩
  simp [getRamPartitions, h.locateProtocol, h.count, allocateZeroPool, hbuffer,
    PoolAnswers.ramPartition_ne_null hbuffer, RamManagerState.initial]

/-- Without the buffer the constructor leaves the static pointer as `NULL`. -/
theorem getRamPartitions_of_not_allocated (h : ¬PartitionsAllocated partitionAnswers pool) :
    (getRamPartitions partitionAnswers pool .initial).2 = .initial := by
  cases hlocate : partitionAnswers.locateProtocol with
  | error e => rw [getRamPartitions, hlocate]
  | ok _ =>
    cases hcount : sizeIsKnown partitionAnswers.count with
    | false =>
      obtain ⟨e, he⟩ := eq_error_of_not_sizeIsKnown hcount
      rw [he] at hcount
      rw [getRamPartitions, hlocate, he, hcount]
    | true =>
      cases hbuffer : pool.ramPartition with
      | none =>
        simp [getRamPartitions, hlocate, hcount, allocateZeroPool, hbuffer,
          RamManagerState.initial]
      | some buffer => exact absurd ⟨hlocate, hcount, by rw [hbuffer, Option.isSome_some]⟩ h

theorem getEfiMemoryMap_of_read (h : MapRead answers pool) (s : RamManagerState) :
    ∃ map buffer, pool.efiMemoryMap = some buffer ∧ getEfiMemoryMap answers pool s =
      (.ok map, { s with pool := .allocate buffer :: s.pool, efiMemoryMap := buffer }) := by
  obtain ⟨map, hmap⟩ := exists_ok h.map
  obtain ⟨buffer, hbuffer⟩ := Option.isSome_iff_exists.mp h.allocated
  refine ⟨map, buffer, hbuffer, ?_⟩
  simp [getEfiMemoryMap, h.size, allocateZeroPool, hbuffer,
    PoolAnswers.efiMemoryMap_ne_null hbuffer, hmap]

/-- Without the memory map there is an error, with a buffer for the map or without one. -/
theorem getEfiMemoryMap_of_not_read (h : ¬MapRead answers pool) (s : RamManagerState) :
    ∃ e, getEfiMemoryMap answers pool s = (.error e, s) ∨
      getEfiMemoryMap answers pool s = (.error e, { s with efiMemoryMap := null }) ∨
      ∃ buffer, pool.efiMemoryMap = some buffer ∧ getEfiMemoryMap answers pool s =
        (.error e, { s with pool := .allocate buffer :: s.pool, efiMemoryMap := buffer }) := by
  cases hsize : sizeIsKnown answers.size with
  | false =>
    obtain ⟨e, he⟩ := eq_error_of_not_sizeIsKnown hsize
    rw [he] at hsize
    exact ⟨e, .inl (by rw [getEfiMemoryMap, he, hsize])⟩
  | true =>
    cases hbuffer : pool.efiMemoryMap with
    | none =>
      refine ⟨.outOfResources, .inr (.inl ?_)⟩
      simp [getEfiMemoryMap, hsize, allocateZeroPool, hbuffer]
    | some buffer =>
      cases hmap : answers.map with
      | ok l => exact absurd ⟨hsize, by simp [hbuffer], by simp [hmap, Except.toOption]⟩ h
      | error e =>
        refine ⟨e, .inr (.inr ⟨buffer, rfl, ?_⟩)⟩
        simp [getEfiMemoryMap, hsize, allocateZeroPool, hbuffer,
          PoolAnswers.efiMemoryMap_ne_null hbuffer, hmap]

/-- The result is the one of `ProjectMu.manageRam` on what the two functions return. -/
theorem manageRam_fst : (manageRam performQuickSort fuel answers pool partitions memoryRange s).1 =
    ProjectMu.manageRam performQuickSort fuel (getEfiMemoryMap answers pool s).1
      (ProjectMu.getUsableMemoryRanges pool.localRange.isSome partitions) := by
  rw [manageRam]
  obtain ⟨result, s'⟩ := getEfiMemoryMap answers pool s
  cases result with
  | error e => rfl
  | ok map =>
    cases hrange : pool.localRange with
    | none => simp [getUsableMemoryRanges, allocateZeroPool, hrange]
    | some range =>
      simp [getUsableMemoryRanges, allocateZeroPool, hrange, PoolAnswers.localRange_ne_null hrange]

theorem releases_cleanup : Releases (cleanup memoryRange s).pool ↔
    Releases s.pool ∧ (s.efiMemoryMap ≠ null → Live s.efiMemoryMap s.pool) ∧
      (memoryRange ≠ null → Live memoryRange s.pool ∧
        (s.efiMemoryMap ≠ null → memoryRange ≠ s.efiMemoryMap)) := by
  by_cases hmap : s.efiMemoryMap = null
  · by_cases hrange : memoryRange = null
    · simp [cleanup, hmap, hrange]
    · simp [cleanup, RamManagerState.freePool, hmap, hrange, and_comm]
  · by_cases hrange : memoryRange = null
    · simp [cleanup, RamManagerState.freePool, hmap, hrange, and_comm]
    · have hpool : (cleanup memoryRange s).pool =
          .free memoryRange :: .free s.efiMemoryMap :: s.pool := by
        simp [cleanup, RamManagerState.freePool, hmap, hrange]
      rw [hpool, releases_free, releases_free, live_free]
      constructor
      · rintro ⟨⟨hne, hlive⟩, hlivemap, hreleases⟩
        exact ⟨hreleases, fun _ => hlivemap, fun _ => ⟨hlive, fun _ => hne⟩⟩
      · rintro ⟨hreleases, hlivemap, hliverange⟩
        obtain ⟨hlive, hne⟩ := hliverange hrange
        exact ⟨⟨hne hmap, hlive⟩, hlivemap hmap, hreleases⟩

/-- Where the memory map was not read, a range that is freed has to be the partitions' buffer. -/
theorem releases_of_not_read {partitionBuffer : Pointer}
    (hpartitions : pool.ramPartition = some partitionBuffer) (h : ¬MapRead answers pool) :
    Releases (manageRam performQuickSort fuel answers pool partitions memoryRange
        ⟨[.allocate partitionBuffer], partitionBuffer, null⟩).2.pool ↔
      memoryRange = null ∨ memoryRange = partitionBuffer := by
  obtain ⟨e, heq | heq | ⟨buffer, hbuffer, heq⟩⟩ := getEfiMemoryMap_of_not_read h
    ⟨[.allocate partitionBuffer], partitionBuffer, null⟩
  · rw [manageRam, heq, releases_cleanup]
    simp [imp_iff_not_or]
  · rw [manageRam, heq, releases_cleanup]
    simp [imp_iff_not_or]
  · have hmap := PoolAnswers.efiMemoryMap_ne_null hbuffer
    have hapart := PoolAnswers.efiMemoryMap_ne_ramPartition hbuffer hpartitions
    rw [manageRam, heq, releases_cleanup]
    constructor
    · rintro ⟨-, -, hrange⟩
      by_cases hnull : memoryRange = null
      · exact .inl hnull
      · obtain ⟨rfl | rfl | hlive, hne⟩ := hrange hnull
        · exact absurd rfl (hne hmap)
        · exact .inr rfl
        · exact hlive.elim
    · rintro (rfl | rfl)
      · exact ⟨trivial, fun _ => .inl rfl, fun h => absurd rfl h⟩
      · exact ⟨trivial, fun _ => .inl rfl, fun _ => ⟨.inr (.inl rfl), fun _ => hapart.symm⟩⟩

/-- Where the memory map was read, the partitions' buffer is freed before the cleanup. -/
theorem releases_of_read {partitionBuffer : Pointer}
    (hpartitions : pool.ramPartition = some partitionBuffer) (h : MapRead answers pool) :
    Releases (manageRam performQuickSort fuel answers pool partitions memoryRange
        ⟨[.allocate partitionBuffer], partitionBuffer, null⟩).2.pool ↔
      memoryRange = null ∨ pool.localRange.isSome := by
  obtain ⟨map, buffer, hbuffer, heq⟩ := getEfiMemoryMap_of_read h
    ⟨[.allocate partitionBuffer], partitionBuffer, null⟩
  have hmap := PoolAnswers.efiMemoryMap_ne_null hbuffer
  have hapart := PoolAnswers.efiMemoryMap_ne_ramPartition hbuffer hpartitions
  rw [manageRam, heq]
  dsimp only
  cases hrange : pool.localRange with
  | none =>
    have hcleanup : Releases (cleanup memoryRange ⟨[.free partitionBuffer, .allocate buffer,
        .allocate partitionBuffer], partitionBuffer, buffer⟩).pool ↔ memoryRange = null := by
      rw [releases_cleanup]
      constructor
      · rintro ⟨-, -, hfree⟩
        by_contra hnull
        obtain ⟨⟨hne, rfl | rfl | hlive⟩, hnot⟩ := hfree hnull
        · exact hnot hmap rfl
        · exact hne rfl
        · exact hlive
      · rintro rfl
        exact ⟨⟨.inr (.inl rfl), trivial⟩, fun _ => ⟨hapart, .inl rfl⟩, fun h => absurd rfl h⟩
    simpa [getUsableMemoryRanges, allocateZeroPool, hrange, ProjectMu.getUsableMemoryRanges,
      ProjectMu.manageRam, RamManagerState.freePool] using hcleanup
  | some range =>
    have hnull := PoolAnswers.localRange_ne_null hrange
    obtain ⟨hrangeMap, hrangePartitions⟩ := PoolAnswers.localRange_ne hrange hbuffer hpartitions
    have hstate : Releases ([.free partitionBuffer, .allocate range, .allocate buffer,
        .allocate partitionBuffer] : List (PoolEvent Pointer)) :=
      ⟨.inr (.inr (.inl rfl)), trivial⟩
    have hcleanup : Releases (cleanup range ⟨[.free partitionBuffer, .allocate range,
        .allocate buffer, .allocate partitionBuffer], partitionBuffer, buffer⟩).pool :=
      releases_cleanup.mpr ⟨hstate, fun _ => ⟨hapart, .inr (.inl rfl)⟩,
        fun _ => ⟨⟨hrangePartitions, .inl rfl⟩, fun _ => hrangeMap⟩⟩
    refine iff_of_true ?_ (.inr rfl)
    simp only [getUsableMemoryRanges, allocateZeroPool, hrange, if_neg hnull]
    split
    · exact hcleanup
    · exact hstate

/-- Without the buffer of the partitions, no other pointer than `NULL` is a range that may be
freed. -/
theorem releases_initial_of_not_read (h : ¬MapRead answers pool) :
    Releases (manageRam performQuickSort fuel answers pool partitions memoryRange .initial).2.pool ↔
      memoryRange = null := by
  obtain ⟨e, heq | heq | ⟨buffer, hbuffer, heq⟩⟩ := getEfiMemoryMap_of_not_read h .initial
  · rw [manageRam, heq, releases_cleanup]
    simp [RamManagerState.initial]
  · rw [manageRam, heq, releases_cleanup]
    simp [RamManagerState.initial]
  · have hmap := PoolAnswers.efiMemoryMap_ne_null hbuffer
    rw [manageRam, heq, releases_cleanup]
    constructor
    · rintro ⟨-, -, hrange⟩
      by_contra hnull
      obtain ⟨rfl | hlive, hne⟩ := hrange hnull
      · exact hne hmap rfl
      · exact hlive
    · rintro rfl
      exact ⟨trivial, fun _ => .inl rfl, fun h => absurd rfl h⟩

/-- Without the buffer of the partitions, `NULL` is freed in its place. -/
theorem not_releases_initial_of_read (h : MapRead answers pool) :
    ¬Releases (manageRam performQuickSort fuel answers pool partitions memoryRange
        .initial).2.pool := by
  obtain ⟨map, buffer, hbuffer, heq⟩ := getEfiMemoryMap_of_read h .initial
  have hmap := PoolAnswers.efiMemoryMap_ne_null hbuffer
  let localRange := allocateZeroPool pool.localRange [.allocate buffer]
  have hnull : ¬Releases (PoolEvent.free null :: localRange.2) := by
    rintro ⟨hlive, -⟩
    cases hrange : pool.localRange with
    | none =>
      simp only [localRange, hrange, allocateZeroPool, live_allocate] at hlive
      exact hlive.elim (fun heq => hmap heq.symm) id
    | some range =>
      simp only [localRange, hrange, allocateZeroPool, live_allocate] at hlive
      exact hlive.elim (fun heq => PoolAnswers.localRange_ne_null hrange heq.symm)
        fun hlive => hlive.elim (fun heq => hmap heq.symm) id
  rw [manageRam, heq]
  dsimp only
  split
  · intro hreleases
    exact hnull (releases_cleanup.mp hreleases).1
  · exact hnull

/-- Every buffer that is freed is one of this run that was not freed before, exactly when the run
owns what it frees. -/
theorem ramManagerEntry_releases_iff
    (performQuickSort : {β : Type} → List β → (β → β → ℤ) → List β) (fuel : ℕ)
    (partitionAnswers : PartitionAnswers) (answers : MapAnswers) (pool : PoolAnswers)
    (memoryRange : Pointer) :
    Releases (ramManagerEntry performQuickSort fuel partitionAnswers answers pool
        memoryRange).2.pool ↔
      OwnsBuffers partitionAnswers answers pool memoryRange := by
  rw [ramManagerEntry]
  dsimp only
  by_cases hallocated : PartitionsAllocated partitionAnswers pool
  · obtain ⟨buffer, hbuffer, hstate⟩ := getRamPartitions_of_allocated hallocated
    rw [hstate]
    by_cases hmap : MapRead answers pool
    · rw [releases_of_read hbuffer hmap]
      exact ⟨fun h => ⟨fun _ => ⟨hallocated, h⟩, fun hnot => absurd hmap hnot⟩,
        fun h => (h.mapRead hmap).2⟩
    · rw [releases_of_not_read hbuffer hmap]
      constructor
      · rintro (rfl | rfl)
        · exact ⟨fun h => absurd h hmap, fun _ => .inl rfl⟩
        · exact ⟨fun h => absurd h hmap, fun _ => .inr ⟨hallocated, hbuffer⟩⟩
      · intro h
        obtain hnull | ⟨-, hsame⟩ := h.mapNotRead hmap
        · exact .inl hnull
        · exact .inr (Option.some_inj.mp (hsame.symm.trans hbuffer))
  · rw [getRamPartitions_of_not_allocated hallocated]
    by_cases hmap : MapRead answers pool
    · exact iff_of_false (not_releases_initial_of_read hmap) fun h => hallocated (h.mapRead hmap).1
    · rw [releases_initial_of_not_read hmap]
      exact ⟨fun h => ⟨fun h => absurd h hmap, fun _ => .inl h⟩,
        fun h => (h.mapNotRead hmap).resolve_right fun hsame => hallocated hsame.1⟩

/-- A partition, no memory for the memory map, and a local variable that holds anything. -/
theorem ramManagerEntry_frees_unassigned :
    ¬Releases (ramManagerEntry mergeSortBy 1
      ⟨.ok (), .error efiBufferTooSmall, .ok [⟨0x80000000, 0x1000⟩], []⟩
      ⟨.error efiBufferTooSmall, .ok []⟩ ⟨some 0x1000, none, some 0x3000, by decide⟩
      0xAFAFAFAFAFAFAFAF).2.pool := by
  decide

end ProjectMu.RamManagerPool
