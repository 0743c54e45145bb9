import ProjectMu.GptEntries

/-!
# Switching one pair

`switchGptPair` on two entries of a slot pair is the abstract `switchPair` on their cells:
it changes the two entries in both arrays and marks their disks, and nothing else.
-/

namespace ProjectMu

open ByteCodec ByteRange SlotSwitch

/-- A disk with its current arrays replaced by the originals. -/
def GptDisk.asLoaded (disk : GptDisk) : GptDisk :=
  { disk with
    primaryEntries := disk.originalPrimaryEntries
    backupEntries := disk.originalBackupEntries
    modified := false
    length_primaryEntries := disk.length_originalPrimaryEntries
    length_backupEntries := disk.length_originalBackupEntries }

theorem GptDisk.blockIo_asLoaded (disk : GptDisk) : disk.asLoaded.blockIo = disk.blockIo := rfl

section Disk

variable (disk : GptDisk) (backup : Bool) {j : ℕ} (entry : EfiPartitionEntry)

@[simp] theorem asLoaded_setEntries (bytes : List Byte) (h : bytes.length = disk.entryArraySize) :
    (disk.setEntries backup bytes h).asLoaded = disk.asLoaded := by
  cases backup <;> rfl

@[simp] theorem setEntries_modified (bytes : List Byte) (h : bytes.length = disk.entryArraySize) :
    (disk.setEntries backup bytes h).modified = disk.modified := by
  cases backup <;> rfl

theorem entries_setEntries (bytes : List Byte) (h : bytes.length = disk.entryArraySize)
    (backup' : Bool) : (disk.setEntries backup bytes h).entries backup' =
      if backup' = backup then bytes else disk.entries backup' := by
  cases backup <;> cases backup' <;> rfl

theorem entrySize_of_asLoaded {disk disk' : GptDisk} (h : disk'.asLoaded = disk.asLoaded) :
    disk'.entrySize = disk.entrySize ∧ disk'.entryCount = disk.entryCount := by
  have hheader : disk'.primaryHeader = disk.primaryHeader := by
    have hfields := congrArg GptDisk.primaryHeader h
    exact hfields
  simp only [GptDisk.entrySize, GptDisk.entryCount, hheader, and_self]

@[simp] theorem asLoaded_writeGptEntry :
    (writeGptEntry disk backup j entry).asLoaded = disk.asLoaded := by
  unfold writeGptEntry
  split_ifs
  · exact asLoaded_setEntries disk backup _ _
  · rfl

@[simp] theorem writeGptEntry_modified :
    (writeGptEntry disk backup j entry).modified = disk.modified := by
  unfold writeGptEntry
  split_ifs
  · exact setEntries_modified disk backup _ _
  · rfl

/-- A write changes its own entry in its own array. -/
theorem slice_writeGptEntry (hj : j < disk.entryCount) (backup' : Bool) (k : ℕ) :
    slice ((writeGptEntry disk backup j entry).entries backup') (k * disk.entrySize)
      disk.entrySize =
    if backup' = backup ∧ k = j then
      splice (slice (disk.entries backup) (j * disk.entrySize) disk.entrySize) 0
        (entryCodec.encode entry)
    else slice (disk.entries backup') (k * disk.entrySize) disk.entrySize := by
  have hlen := entryCodec.length_encode entry
  have hfit := disk.entry_le hj backup
  have hwhole : j * disk.entrySize + disk.entrySize ≤ (disk.entries backup).length := by
    rw [disk.length_entries, disk.entryArraySize_eq_mul]
    exact window_le hj le_rfl
  have hsize := disk.entrySize_le
  rw [writeGptEntry, dif_pos hj, entries_setEntries]
  by_cases hb : backup' = backup
  · subst hb
    rw [if_pos rfl]
    by_cases hk : k = j
    · subst hk
      have hin := @slice_splice_within _ (disk.entries backup') (entryCodec.encode entry)
        (k * disk.entrySize) 0 disk.entrySize hwhole (by rw [hlen, Nat.zero_add]; exact hsize)
      rw [if_pos ⟨rfl, rfl⟩]
      exact hin
    · rw [if_neg (fun h => hk h.2)]
      apply slice_splice_disjoint (by omega)
      rw [hlen]
      exact window_disjoint entryCodec.size hsize hk
  · rw [if_neg hb, if_neg (fun h => hb h.1)]

end Disk

section Disks

variable {disks : List GptDisk} (backup : Bool) {ref : EntryRef} (guid : BitVec 128)
  (active : Bool)

/-- Two lists of disks that differ in their current arrays and marks only. -/
def SameTables (disks disks' : List GptDisk) : Prop :=
  disks'.map GptDisk.asLoaded = disks.map GptDisk.asLoaded

theorem map_modify_eq {α β : Type*} {f : α → β} {g : α → α} (h : ∀ a, f (g a) = f a) (l : List α)
    (i : ℕ) : (l.modify i g).map f = l.map f := by
  apply List.ext_getElem?
  intro j
  simp only [List.getElem?_map, List.getElem?_modify]
  cases l[j]? with
  | none => rfl
  | some a =>
    by_cases hij : i = j
    · simp [hij, h]
    · simp [hij]

theorem sameTables_setSlotStateAt :
    SameTables disks (setSlotStateAt backup ref guid active disks) := by
  refine map_modify_eq (fun disk => ?_) disks ref.disk
  split
  · rfl
  · exact asLoaded_writeGptEntry disk backup _

theorem modified_setSlotStateAt :
    (setSlotStateAt backup ref guid active disks).map (·.modified) = disks.map (·.modified) := by
  refine map_modify_eq (fun disk => ?_) disks ref.disk
  split
  · rfl
  · exact writeGptEntry_modified disk backup _

theorem SameTables.getElem? {disks disks' : List GptDisk} (h : SameTables disks disks') (i : ℕ) :
    (disks'[i]?).map GptDisk.asLoaded = (disks[i]?).map GptDisk.asLoaded := by
  simpa only [List.getElem?_map] using congrArg (fun l => l[i]?) h

theorem SameTables.validRef {disks disks' : List GptDisk} (h : SameTables disks disks') :
    ValidRef disks' ref ↔ ValidRef disks ref := by
  have hat := h.getElem? ref.disk
  unfold ValidRef
  cases hd : disks[ref.disk]? with
  | none =>
    rw [hd] at hat
    rw [Option.map_eq_none_iff.mp hat]
  | some disk =>
    rw [hd] at hat
    obtain ⟨disk', hd', hsame⟩ := Option.map_eq_some_iff.mp hat
    simp only [hd', Option.some.injEq, exists_eq_left', (entrySize_of_asLoaded hsame).2]

theorem SameTables.entryRefs {disks disks' : List GptDisk} (h : SameTables disks disks') :
    entryRefs disks' = entryRefs disks := by
  have hmap (l : List GptDisk) : ProjectMu.entryRefs (l.map GptDisk.asLoaded) =
      ProjectMu.entryRefs l := by
    unfold ProjectMu.entryRefs
    rw [List.zipIdx_map, List.flatMap_map]
    rfl
  rw [← hmap disks', h, hmap disks]

theorem rawEntry_setSlotStateAt (hvalid : ValidRef disks ref) (backup' : Bool) (ref' : EntryRef) :
    rawEntry (setSlotStateAt backup ref guid active disks) backup' ref' =
      if backup' = backup ∧ ref' = ref then rewriteRaw (rawEntry disks backup ref) guid active
      else rawEntry disks backup' ref' := by
  obtain ⟨disk, hdisk, hj⟩ := hvalid
  unfold rawEntry setSlotStateAt
  rw [List.getElem?_modify]
  by_cases hd : ref.disk = ref'.disk
  · have hslice := slice_writeGptEntry disk backup (setGptEntrySlotState (entryOf (slice
      (disk.entries backup) (ref.entry * disk.entrySize) disk.entrySize)) guid active) hj backup'
      ref'.entry
    have hsize := (entrySize_of_asLoaded (asLoaded_writeGptEntry disk backup (j := ref.entry)
      (setGptEntrySlotState (entryOf (slice (disk.entries backup) (ref.entry * disk.entrySize)
        disk.entrySize)) guid active))).1
    have href : ref' = ref ↔ ref'.entry = ref.entry := by
      constructor
      · exact fun he => congrArg EntryRef.entry he
      · intro he
        cases ref
        cases ref'
        simp_all
    rw [← hd, hdisk]
    simp only [Option.map_eq_map, Option.map_some, if_true, getGptEntry_eq,
      if_neg (not_le.mpr hj), hsize, hslice, href]
    rfl
  · have hne : ¬ (backup' = backup ∧ ref' = ref) := fun h => hd (by rw [h.2])
    rw [if_neg hne]
    cases disks[ref'.disk]? with
    | none => rfl
    | some disk' => simp [hd]

theorem sameTables_markModified (ref : EntryRef) :
    SameTables disks (markModified ref disks) := by
  apply map_modify_eq
  intro disk
  rfl

theorem rawEntry_markModified (backup' : Bool) (ref' : EntryRef) :
    rawEntry (markModified ref disks) backup' ref' = rawEntry disks backup' ref' := by
  unfold rawEntry markModified
  rw [List.getElem?_modify]
  cases disks[ref'.disk]? with
  | none => rfl
  | some disk =>
    by_cases hd : ref.disk = ref'.disk
    · simp only [hd, if_true, Option.map_eq_map, Option.map_some]
      rfl
    · simp [hd]

/-- The writes of `switchGptPair` where its checks pass. -/
def switchedDisks (disks : List GptDisk) (refA refB : EntryRef) (guidA guidB : BitVec 128)
    (targetSlot : AbSlot) : List GptDisk :=
  markModified refB (markModified refA (setSlotStateAt true refB guidB (targetSlot = .b)
    (setSlotStateAt true refA guidA (targetSlot = .a) (setSlotStateAt false refB guidB
      (targetSlot = .b) (setSlotStateAt false refA guidA (targetSlot = .a) disks)))))

theorem sameTables_switchedDisks (refA refB : EntryRef) (guidA guidB : BitVec 128)
    (targetSlot : AbSlot) :
    SameTables disks (switchedDisks disks refA refB guidA guidB targetSlot) := by
  unfold switchedDisks
  refine (sameTables_markModified _).trans ((sameTables_markModified _).trans ?_)
  refine (sameTables_setSlotStateAt _ _ _).trans ((sameTables_setSlotStateAt _ _ _).trans ?_)
  exact (sameTables_setSlotStateAt _ _ _).trans (sameTables_setSlotStateAt _ _ _)

/-- Both copies of both entries change as `switchPair` says, and no other entry does. -/
theorem copiesAt_switchedDisks {refA refB : EntryRef} (hA : ValidRef disks refA)
    (hB : ValidRef disks refB) (hne : refA ≠ refB) (targetSlot : AbSlot) :
    copiesAt (switchedDisks disks refA refB (entryAccess.kind (copiesAt disks refB))
      (entryAccess.kind (copiesAt disks refA)) targetSlot) =
    switchPair entryAccess targetSlot (copiesAt disks) refA refB := by
  let guidA := entryAccess.kind (copiesAt disks refB)
  let guidB := entryAccess.kind (copiesAt disks refA)
  let disks₁ := setSlotStateAt false refA guidA (targetSlot = .a) disks
  let disks₂ := setSlotStateAt false refB guidB (targetSlot = .b) disks₁
  let disks₃ := setSlotStateAt true refA guidA (targetSlot = .a) disks₂
  have h₁ : SameTables disks disks₁ := sameTables_setSlotStateAt _ _ _
  have h₂ : SameTables disks disks₂ := (sameTables_setSlotStateAt _ _ _).trans h₁
  have h₃ : SameTables disks disks₃ := (sameTables_setSlotStateAt _ _ _).trans h₂
  have hraw (backup' : Bool) (ref : EntryRef) :
      rawEntry (switchedDisks disks refA refB guidA guidB targetSlot) backup' ref =
        if ref = refB then rewriteRaw (rawEntry disks backup' refB) guidB (targetSlot = .b)
        else if ref = refA then rewriteRaw (rawEntry disks backup' refA) guidA (targetSlot = .a)
        else rawEntry disks backup' ref := by
    unfold switchedDisks
    rw [rawEntry_markModified, rawEntry_markModified,
      rawEntry_setSlotStateAt _ _ _ (h₃.validRef.mpr hB),
      rawEntry_setSlotStateAt _ _ _ (h₂.validRef.mpr hA),
      rawEntry_setSlotStateAt _ _ _ (h₂.validRef.mpr hA),
      rawEntry_setSlotStateAt _ _ _ (h₁.validRef.mpr hB),
      rawEntry_setSlotStateAt _ _ _ (h₁.validRef.mpr hB),
      rawEntry_setSlotStateAt _ _ _ (h₁.validRef.mpr hB),
      rawEntry_setSlotStateAt _ _ _ hA, rawEntry_setSlotStateAt _ _ _ hA,
      rawEntry_setSlotStateAt _ _ _ hA, rawEntry_setSlotStateAt _ _ _ hA]
    by_cases hb : ref = refB
    · cases backup' <;> simp [hb, Ne.symm hne]
    · cases backup' <;> simp [hb, hne]
  funext ref
  refine (congrArg₂ EntryCopies.mk (hraw false ref) (hraw true ref)).trans ?_
  by_cases hb : ref = refB
  · rw [if_pos hb, if_pos hb, hb, switchPair_snd]
    rfl
  · by_cases ha : ref = refA
    · rw [if_neg hb, if_neg hb, if_pos ha, if_pos ha, ha, switchPair_fst hne]
      rfl
    · rw [if_neg hb, if_neg hb, if_neg ha, if_neg ha, switchPair_of_ne ha hb]
      rfl

end Disks

end ProjectMu
