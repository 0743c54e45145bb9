import ProjectMu.GptPairs

/-!
# The entries of all disks as cells

Each `EntryRef` has a primary and a backup copy of `SizeOfPartitionEntry` bytes; together
they are the `EntryCopies` of the reference. The fields that a switch reads are those of
the primary copy, and `setGptEntrySlotState` writes both. Writing one entry changes the
first 128 bytes of one copy and nothing else.
-/

namespace ProjectMu

open ByteCodec ByteRange SlotSwitch

theorem abSlotActiveAttribute_getLsbD {i : ℕ} (h : i < 64) :
    abSlotActiveAttribute.getLsbD i = decide (i = 50) := by
  revert i
  decide

theorem isActive_eq (entry : EfiPartitionEntry) : isActive entry = entry.attributes.getLsbD 50 := by
  have hbit (x : BitVec 64) : x &&& abSlotActiveAttribute = 0 ↔ x.getLsbD 50 = false := by
    constructor
    · intro h
      have h50 := congrArg (fun y => y.getLsbD 50) h
      rw [BitVec.getLsbD_and, abSlotActiveAttribute_getLsbD (by norm_num), decide_eq_true rfl,
        Bool.and_true] at h50
      exact h50
    · intro h
      apply BitVec.eq_of_getLsbD_eq
      intro i hi
      rw [BitVec.getLsbD_and, abSlotActiveAttribute_getLsbD hi]
      by_cases h50 : i = 50
      · rw [h50, h, Bool.false_and]
        rfl
      · rw [decide_eq_false h50, Bool.and_false]
        simp
  unfold isActive
  cases h : entry.attributes.getLsbD 50 with
  | false => simp [(hbit _).mpr h]
  | true =>
    rw [bne_iff_ne, ne_eq, hbit, h]
    decide

section SlotState

variable (entry : EfiPartitionEntry) (guid guid' : BitVec 128) (active active' : Bool)

theorem setGptEntrySlotState_attributes {i : ℕ} (h : i < 64) :
    (setGptEntrySlotState entry guid active).attributes.getLsbD i =
      if i = 50 then active else entry.attributes.getLsbD i := by
  unfold setGptEntrySlotState
  cases active with
  | true =>
    simp only [if_true, BitVec.getLsbD_or, abSlotActiveAttribute_getLsbD h]
    by_cases h50 : i = 50 <;> simp [h50]
  | false =>
    simp only [Bool.false_eq_true, if_false, BitVec.getLsbD_and, BitVec.getLsbD_not,
      abSlotActiveAttribute_getLsbD h]
    by_cases h50 : i = 50 <;> simp [h50, h]

@[simp] theorem isActive_setGptEntrySlotState :
    isActive (setGptEntrySlotState entry guid active) = active := by
  rw [isActive_eq, setGptEntrySlotState_attributes entry guid active (by norm_num), if_pos rfl]

@[simp] theorem setGptEntrySlotState_twice :
    setGptEntrySlotState (setGptEntrySlotState entry guid active) guid' active' =
      setGptEntrySlotState entry guid' active' := by
  have hattr : (setGptEntrySlotState (setGptEntrySlotState entry guid active) guid'
      active').attributes = (setGptEntrySlotState entry guid' active').attributes := by
    apply BitVec.eq_of_getLsbD_eq
    intro i hi
    rw [setGptEntrySlotState_attributes _ _ _ hi, setGptEntrySlotState_attributes _ _ _ hi,
      setGptEntrySlotState_attributes _ _ _ hi]
    split_ifs <;> rfl
  unfold setGptEntrySlotState at hattr ⊢
  exact congrArg (EfiPartitionEntry.mk guid' entry.uniquePartitionGUID entry.startingLBA
    entry.endingLBA · entry.partitionName) hattr

theorem setGptEntrySlotState_self :
    setGptEntrySlotState entry entry.partitionTypeGUID (isActive entry) = entry := by
  have hattr : (setGptEntrySlotState entry entry.partitionTypeGUID (isActive entry)).attributes =
      entry.attributes := by
    apply BitVec.eq_of_getLsbD_eq
    intro i hi
    rw [setGptEntrySlotState_attributes _ _ _ hi, isActive_eq]
    split_ifs with h50
    · rw [h50]
    · rfl
  unfold setGptEntrySlotState at hattr ⊢
  exact congrArg (EfiPartitionEntry.mk entry.partitionTypeGUID entry.uniquePartitionGUID
    entry.startingLBA entry.endingLBA · entry.partitionName) hattr

end SlotState

/-- The entry at the beginning of its slot in an array. -/
def entryOf (raw : List Byte) : EfiPartitionEntry := entryCodec.decode (slice raw 0 entryCodec.size)

def rewriteRaw (raw : List Byte) (guid : BitVec 128) (active : Bool) : List Byte :=
  splice raw 0 (entryCodec.encode (setGptEntrySlotState (entryOf raw) guid active))

theorem splice_zero (raw : List Byte) (entry : EfiPartitionEntry) :
    splice raw 0 (entryCodec.encode entry) =
      entryCodec.encode entry ++ raw.drop entryCodec.size := by
  simp [splice]

@[simp] theorem entryOf_rewriteRaw (raw : List Byte) (guid : BitVec 128) (active : Bool) :
    entryOf (rewriteRaw raw guid active) = setGptEntrySlotState (entryOf raw) guid active := by
  rw [rewriteRaw, splice_zero, entryOf, slice, List.drop_zero,
    List.take_left' (entryCodec.length_encode _), entryCodec.decode_encode]

@[simp] theorem rewriteRaw_twice (raw : List Byte) (guid guid' : BitVec 128)
    (active active' : Bool) :
    rewriteRaw (rewriteRaw raw guid active) guid' active' = rewriteRaw raw guid' active' := by
  have hdrop : (rewriteRaw raw guid active).drop entryCodec.size = raw.drop entryCodec.size := by
    rw [rewriteRaw, splice_zero, List.drop_left' (entryCodec.length_encode _)]
  rw [rewriteRaw, splice_zero, hdrop, entryOf_rewriteRaw, setGptEntrySlotState_twice,
    rewriteRaw, splice_zero]

/-- Writing back what a slot holds changes nothing. -/
theorem rewriteRaw_self {raw : List Byte} (h : entryCodec.size ≤ raw.length) :
    rewriteRaw raw (entryOf raw).partitionTypeGUID (isActive (entryOf raw)) = raw := by
  have hlen : (slice raw 0 entryCodec.size).length = entryCodec.size :=
    length_slice_of_le (by rw [Nat.zero_add]; exact h)
  rw [rewriteRaw, setGptEntrySlotState_self, entryOf, entryCodec.encode_decode _ hlen]
  exact splice_slice_self raw 0 entryCodec.size (by rw [Nat.zero_add]; exact h)

structure EntryCopies where
  primary : List Byte
  backup : List Byte

def entryAccess : Access EntryCopies (BitVec 128) where
  kind copies := (entryOf copies.primary).partitionTypeGUID
  active copies := isActive (entryOf copies.primary)
  put copies guid active :=
    ⟨rewriteRaw copies.primary guid active, rewriteRaw copies.backup guid active⟩
  kind_put copies guid active := by
    rw [entryOf_rewriteRaw]
    rfl
  active_put copies guid active := by rw [entryOf_rewriteRaw, isActive_setGptEntrySlotState]
  put_put copies guid active guid' active' := by simp only [rewriteRaw_twice]

/-- The bytes of one copy of an entry, none for a reference to no disk. -/
def rawEntry (disks : List GptDisk) (backup : Bool) (ref : EntryRef) : List Byte :=
  match disks[ref.disk]? with
  | none => []
  | some disk => slice (disk.entries backup) (ref.entry * disk.entrySize) disk.entrySize

def copiesAt (disks : List GptDisk) (ref : EntryRef) : EntryCopies :=
  ⟨rawEntry disks false ref, rawEntry disks true ref⟩

def ValidRef (disks : List GptDisk) (ref : EntryRef) : Prop :=
  ∃ disk, disks[ref.disk]? = some disk ∧ ref.entry < disk.entryCount

theorem mem_entryRefs {disks : List GptDisk} {ref : EntryRef} :
    ref ∈ entryRefs disks ↔ ValidRef disks ref := by
  simp only [entryRefs, List.mem_flatMap, List.mem_map, List.mem_range, Prod.exists,
    List.mem_zipIdx_iff_getElem?, ValidRef]
  constructor
  · rintro ⟨disk, i, hdisk, j, hj, rfl⟩
    exact ⟨disk, hdisk, hj⟩
  · rintro ⟨disk, hdisk, hj⟩
    exact ⟨disk, ref.disk, hdisk, ref.entry, hj, rfl⟩

theorem getGptEntry_eq (disk : GptDisk) (backup : Bool) (j : ℕ) :
    getGptEntry disk backup j = if disk.entryCount ≤ j then none
      else some (entryOf (slice (disk.entries backup) (j * disk.entrySize) disk.entrySize)) := by
  have hsize : 0 + entryCodec.size ≤ disk.entrySize := by
    rw [Nat.zero_add]
    exact disk.entrySize_le
  rw [getGptEntry, entryOf, slice_slice _ _ _ _ _ hsize, Nat.add_zero]

theorem gptEntryAt_of_valid {disks : List GptDisk} {ref : EntryRef} (h : ValidRef disks ref)
    (backup : Bool) : gptEntryAt disks backup ref = some (entryOf (rawEntry disks backup ref)) := by
  obtain ⟨disk, hdisk, hj⟩ := h
  rw [gptEntryAt, rawEntry, hdisk, Option.bind_some, getGptEntry_eq, if_neg (not_le.mpr hj)]

theorem gptEntryAt_eq_some {disks : List GptDisk} {ref : EntryRef} {backup : Bool}
    {entry : EfiPartitionEntry} : gptEntryAt disks backup ref = some entry ↔
      ValidRef disks ref ∧ entry = entryOf (rawEntry disks backup ref) := by
  constructor
  · intro h
    obtain ⟨disk, hdisk, hget⟩ := Option.bind_eq_some_iff.mp h
    have hvalid : ValidRef disks ref := by
      refine ⟨disk, hdisk, ?_⟩
      rw [getGptEntry_eq] at hget
      split_ifs at hget with hle
      exact not_le.mp hle
    rw [gptEntryAt_of_valid hvalid] at h
    exact ⟨hvalid, (Option.some.inj h).symm⟩
  · rintro ⟨hvalid, rfl⟩
    exact gptEntryAt_of_valid hvalid backup

end ProjectMu
