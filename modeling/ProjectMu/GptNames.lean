import ProjectMu.GptFormat

/-!
# Partition names and their slot suffixes

A partition name is an array of 36 CHAR16 that a terminator ends, if there is one. The
comparisons of the application walk the array; each of them is a statement about the
`text` before the terminator. Two entries are a slot pair when their texts are `p_a` and
`p_b` for one non-empty `p`.
-/

namespace ProjectMu

def charUnderscore : BitVec 16 := 0x5F
def charA : BitVec 16 := 0x61
def charB : BitVec 16 := 0x62

def getPartitionNameLength (partitionName : List.Vector (BitVec 16) gptMaxNameLength) : ℕ :=
  partitionName.toList.findIdx (· == 0)

def isGptEntryUnused (entry : EfiPartitionEntry) : Bool := entry.partitionTypeGUID == 0

def doesPartitionNameEndWithSlot (entry : EfiPartitionEntry) (slot : BitVec 16) : Bool :=
  let nameLength := getPartitionNameLength entry.partitionName
  if nameLength < 3 then false
  else entry.partitionName.toList.getD (nameLength - 2) 0 == charUnderscore &&
    entry.partitionName.toList.getD (nameLength - 1) 0 == slot

def isPartitionNameEqual (entry : EfiPartitionEntry) (partitionName : List (BitVec 16)) : Bool :=
  let entryNameLength := getPartitionNameLength entry.partitionName
  if entryNameLength ≠ partitionName.length then false
  else entry.partitionName.toList.take partitionName.length == partitionName

def areEntryNamesEqual (entryA entryB : EfiPartitionEntry) : Bool :=
  let nameLengthA := getPartitionNameLength entryA.partitionName
  let nameLengthB := getPartitionNameLength entryB.partitionName
  if nameLengthA ≠ nameLengthB then false
  else entryA.partitionName.toList.take nameLengthA ==
    entryB.partitionName.toList.take nameLengthA

def areEntriesSlotPair (entryA entryB : EfiPartitionEntry) : Bool :=
  let nameLengthA := getPartitionNameLength entryA.partitionName
  let nameLengthB := getPartitionNameLength entryB.partitionName
  if nameLengthA ≠ nameLengthB ∨ nameLengthA < 3 ∨
      doesPartitionNameEndWithSlot entryA charA = false ∨
      doesPartitionNameEndWithSlot entryB charB = false then false
  else entryA.partitionName.toList.take (nameLengthA - 2) ==
    entryB.partitionName.toList.take (nameLengthA - 2)

/-- The name of an entry, up to its terminator. -/
def EfiPartitionEntry.text (entry : EfiPartitionEntry) : List (BitVec 16) :=
  entry.partitionName.toList.take (getPartitionNameLength entry.partitionName)

variable {entry entryA entryB : EfiPartitionEntry}

@[simp] theorem length_text (entry : EfiPartitionEntry) :
    entry.text.length = getPartitionNameLength entry.partitionName := by
  rw [EfiPartitionEntry.text, List.length_take]
  exact Nat.min_eq_left List.findIdx_le_length

theorem isPartitionNameEqual_iff {partitionName : List (BitVec 16)} :
    isPartitionNameEqual entry partitionName = true ↔ entry.text = partitionName := by
  have hlen := length_text entry
  unfold isPartitionNameEqual
  dsimp only
  split_ifs with h
  · refine iff_of_false not_false (fun he => h ?_)
    rw [← hlen, he]
  · rw [beq_iff_eq, EfiPartitionEntry.text, not_not.mp h]

/-- A list ends in two given elements exactly when they are at its last two places. -/
theorem eq_append_pair_iff {α : Type*} {l : List α} {d x y : α} (h : 2 ≤ l.length) :
    l.take (l.length - 2) ++ [x, y] = l ↔
      l.getD (l.length - 2) d = x ∧ l.getD (l.length - 1) d = y := by
  obtain ⟨p, z, w, rfl⟩ : ∃ p z w, l = p ++ [z, w] := by
    refine ⟨l.take (l.length - 2), l[l.length - 2], l[l.length - 1], ?_⟩
    have hdrop : l.drop (l.length - 2) = [l[l.length - 2], l[l.length - 1]] := by
      apply List.ext_getElem
      · simp only [List.length_drop, List.length_cons, List.length_nil]
        omega
      · intro i h1 h2
        rw [List.getElem_drop]
        match i, h2 with
        | 0, _ => rfl
        | 1, _ =>
          simp only [List.getElem_cons_succ, List.getElem_cons_zero]
          congr 1
          omega
    rw [← hdrop, List.take_append_drop]
  have hlen : (p ++ [z, w]).length = p.length + 2 := by simp
  rw [hlen, Nat.add_sub_cancel, show p.length + 2 - 1 = p.length + 1 by omega]
  simp [List.getD_eq_getElem?_getD, eq_comm]

theorem getD_text {i : ℕ} (h : i < getPartitionNameLength entry.partitionName) :
    entry.text.getD i 0 = entry.partitionName.toList.getD i 0 := by
  simp only [EfiPartitionEntry.text, List.getD_eq_getElem?_getD, List.getElem?_take, if_pos h]

theorem take_text {n : ℕ} (h : n ≤ getPartitionNameLength entry.partitionName) :
    entry.partitionName.toList.take n = entry.text.take n := by
  rw [EfiPartitionEntry.text, List.take_take, Nat.min_eq_left h]

theorem length_of_text_eq {base : List (BitVec 16)} {slot : BitVec 16}
    (h : entry.text = base ++ [charUnderscore, slot]) :
    getPartitionNameLength entry.partitionName = base.length + 2 := by
  rw [← length_text, h, List.length_append]
  rfl

theorem doesPartitionNameEndWithSlot_iff {slot : BitVec 16} :
    doesPartitionNameEndWithSlot entry slot = true ↔
      3 ≤ entry.text.length ∧
        entry.text.take (entry.text.length - 2) ++ [charUnderscore, slot] = entry.text := by
  have hlen := length_text entry
  unfold doesPartitionNameEndWithSlot
  dsimp only
  split_ifs with h
  · exact iff_of_false not_false (fun he => by omega)
  · have hge : 2 ≤ entry.text.length := by omega
    have hlast := eq_append_pair_iff (d := (0 : BitVec 16)) (x := charUnderscore) (y := slot) hge
    rw [Bool.and_eq_true, beq_iff_eq, beq_iff_eq, hlast, hlen, getD_text (by omega),
      getD_text (by omega)]
    exact ⟨fun he => ⟨by omega, he⟩, fun he => he.2⟩

/-- A name with a slot suffix is a non-empty base name and the suffix. -/
theorem doesPartitionNameEndWithSlot_iff_exists {slot : BitVec 16} :
    doesPartitionNameEndWithSlot entry slot = true ↔
      ∃ base, base ≠ [] ∧ entry.text = base ++ [charUnderscore, slot] := by
  rw [doesPartitionNameEndWithSlot_iff]
  constructor
  · intro h
    refine ⟨entry.text.take (entry.text.length - 2), ?_, h.2.symm⟩
    apply List.ne_nil_of_length_pos
    rw [List.length_take]
    omega
  · rintro ⟨base, hbase, htext⟩
    have hpos := List.length_pos_of_ne_nil hbase
    have hlen : entry.text.length = base.length + 2 := by
      rw [htext]
      simp
    refine ⟨by omega, ?_⟩
    rw [hlen, Nat.add_sub_cancel, htext, List.take_left]

theorem areEntriesSlotPair_iff :
    areEntriesSlotPair entryA entryB = true ↔ ∃ base, base ≠ [] ∧
      entryA.text = base ++ [charUnderscore, charA] ∧
      entryB.text = base ++ [charUnderscore, charB] := by
  unfold areEntriesSlotPair
  dsimp only
  constructor
  · intro h
    split_ifs at h with hbad
    simp only [not_or, not_not, Bool.not_eq_false] at hbad
    obtain ⟨hlen, hge, hendA, hendB⟩ := hbad
    obtain ⟨baseA, hne, htextA⟩ := doesPartitionNameEndWithSlot_iff_exists.mp hendA
    obtain ⟨baseB, -, htextB⟩ := doesPartitionNameEndWithSlot_iff_exists.mp hendB
    have hlenA := length_of_text_eq htextA
    have hlenB := length_of_text_eq htextB
    have hsame : baseA.length = baseB.length := by omega
    rw [beq_iff_eq, take_text (by omega), take_text (by omega), htextA, htextB, hlenA,
      Nat.add_sub_cancel, List.take_left, hsame, List.take_left] at h
    exact ⟨baseA, hne, htextA, h ▸ htextB⟩
  · rintro ⟨base, hne, htextA, htextB⟩
    have hendA := doesPartitionNameEndWithSlot_iff_exists.mpr ⟨base, hne, htextA⟩
    have hendB := doesPartitionNameEndWithSlot_iff_exists.mpr ⟨base, hne, htextB⟩
    have hpos := List.length_pos_of_ne_nil hne
    have hlenA := length_of_text_eq htextA
    have hlenB := length_of_text_eq htextB
    rw [if_neg (by simp only [hlenA, hlenB, hendA, hendB]; simp; omega), beq_iff_eq,
      take_text (by omega), take_text (by omega), htextA, htextB, hlenA,
      Nat.add_sub_cancel, List.take_left, List.take_left]

end ProjectMu
