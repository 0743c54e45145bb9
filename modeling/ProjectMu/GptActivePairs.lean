import ProjectMu.GptSwitchAll

/-!
# The pairs of the entry tables

A slot pair is two used entries named `p_a` and `p_b`. The entries of slot A are never
partners themselves, so the run over them is `Sided`; where used entries have different
names it is `Apart`, and the pairs of the run are exactly the slot pairs.
-/

namespace ProjectMu

open ByteCodec ByteRange SlotSwitch

/-- A used primary entry and where it is. -/
def UsedEntry (disks : List GptDisk) (ref : EntryRef) (entry : EfiPartitionEntry) : Prop :=
  gptEntryAt disks false ref = some entry ∧ isGptEntryUnused entry = false

/-- Two used entries named `base_a` and `base_b`. -/
def SlotPair (disks : List GptDisk) (refA refB : EntryRef) : Prop :=
  ∃ entryA entryB base, UsedEntry disks refA entryA ∧ UsedEntry disks refB entryB ∧ base ≠ [] ∧
    entryA.text = base ++ [charUnderscore, charA] ∧ entryB.text = base ++ [charUnderscore, charB]

def ActiveAt (disks : List GptDisk) (ref : EntryRef) : Prop :=
  ∃ entry, gptEntryAt disks false ref = some entry ∧ entry.attributes.getLsbD 50 = true

/-- A slot pair of which at least one entry is active. -/
def ActivePair (disks : List GptDisk) (refA refB : EntryRef) : Prop :=
  SlotPair disks refA refB ∧ (ActiveAt disks refA ∨ ActiveAt disks refB)

def NamesUnique (disks : List GptDisk) : Prop :=
  ∀ ref ref' entry entry', UsedEntry disks ref entry → UsedEntry disks ref' entry' →
    entry.text = entry'.text → ref = ref'

variable {disks : List GptDisk} {ref refA refB : EntryRef}

theorem usedEntry_iff {entry : EfiPartitionEntry} : UsedEntry disks ref entry ↔
    ValidRef disks ref ∧ entry = entryOf (rawEntry disks false ref) ∧
      isGptEntryUnused entry = false := by
  unfold UsedEntry
  rw [gptEntryAt_eq_some, and_assoc]

/-- The name of a used primary entry. -/
def usedText (disks : List GptDisk) (ref : EntryRef) : Option (List (BitVec 16)) :=
  ((gptEntryAt disks false ref).filter (fun entry => !isGptEntryUnused entry)).map
    EfiPartitionEntry.text

theorem usedText_eq_some {text : List (BitVec 16)} : usedText disks ref = some text ↔
    ∃ entry, UsedEntry disks ref entry ∧ entry.text = text := by
  simp only [usedText, UsedEntry, Option.map_eq_some_iff, Option.filter_eq_some_iff,
    Bool.not_eq_true']

theorem namesUnique_iff : NamesUnique disks ↔ ∀ ref ∈ entryRefs disks, ∀ ref' ∈ entryRefs disks,
    usedText disks ref ≠ none → usedText disks ref = usedText disks ref' → ref = ref' := by
  constructor
  · intro h ref _ ref' _ hsome heq
    obtain ⟨text, htext⟩ := Option.ne_none_iff_exists'.mp hsome
    obtain ⟨entry, hused, he⟩ := usedText_eq_some.mp htext
    obtain ⟨entry', hused', he'⟩ := usedText_eq_some.mp (heq ▸ htext)
    exact h ref ref' entry entry' hused hused' (he.trans he'.symm)
  · intro h ref ref' entry entry' hused hused' he
    have htext := usedText_eq_some.mpr ⟨entry, hused, rfl⟩
    have htext' := usedText_eq_some.mpr ⟨entry', hused', he.symm⟩
    refine h ref ?_ ref' ?_ (by simp [htext]) (htext.trans htext'.symm)
    · exact mem_entryRefs.mpr (usedEntry_iff.mp hused).1
    · exact mem_entryRefs.mpr (usedEntry_iff.mp hused').1

instance (disks : List GptDisk) : Decidable (NamesUnique disks) :=
  decidable_of_iff _ namesUnique_iff.symm

theorem namesUnique_xbl : NamesUnique [xblDisk] := by
  decide +kernel

theorem activeAt_iff : ActiveAt disks ref ↔
    ValidRef disks ref ∧ entryAccess.active (copiesAt disks ref) = true := by
  unfold ActiveAt
  change _ ↔ _ ∧ isActive (entryOf (rawEntry disks false ref)) = true
  rw [isActive_eq]
  constructor
  · rintro ⟨entry, hat, hbit⟩
    obtain ⟨hvalid, rfl⟩ := gptEntryAt_eq_some.mp hat
    exact ⟨hvalid, hbit⟩
  · rintro ⟨hvalid, hbit⟩
    exact ⟨_, gptEntryAt_of_valid hvalid false, hbit⟩

theorem nodup_entryRefs (disks : List GptDisk) : (entryRefs disks).Nodup := by
  unfold entryRefs
  rw [List.nodup_flatMap]
  constructor
  · rintro ⟨disk, i⟩ -
    apply List.Nodup.map ?_ List.nodup_range
    intro j j' h
    exact congrArg EntryRef.entry h
  · have hidx : (disks.zipIdx.map Prod.snd).Nodup := by
      rw [List.zipIdx_map_snd]
      exact List.nodup_range'
    rw [List.Nodup, List.pairwise_map] at hidx
    refine hidx.imp (fun {x y} hne => ?_)
    intro ref hx hy
    obtain ⟨j, -, rfl⟩ := List.mem_map.mp hx
    obtain ⟨j', -, h⟩ := List.mem_map.mp hy
    exact hne (congrArg EntryRef.disk h).symm

/-- An entry that ends in the suffix of slot B is not visited by the loops. -/
theorem not_mem_slotARefs_of_text {base : List (BitVec 16)}
    (htext : (entryOf (rawEntry disks false ref)).text = base ++ [charUnderscore, charB]) :
    ref ∉ slotARefs disks := by
  intro hmem
  have hslot := (mem_slotARefs.mp hmem).2
  unfold isSlotA at hslot
  rw [Bool.and_eq_true] at hslot
  obtain ⟨base', -, htext'⟩ := doesPartitionNameEndWithSlot_iff_exists.mp hslot.2
  rw [htext] at htext'
  have hlast := congrArg List.getLast? htext'
  simp [charA, charB] at hlast

theorem IsPair.not_slotA (h : IsPair disks refA refB) : refB ∉ slotARefs disks := by
  obtain ⟨base, -, -, hB⟩ := areEntriesSlotPair_iff.mp h.names
  exact not_mem_slotARefs_of_text hB

theorem sided (disks : List GptDisk) : Sided (pairing disks) (slotARefs disks) where
  nodup := (nodup_entryRefs disks).filter _
  partner_not_mem _ _ _ hb := (isPair_of_partner hb).not_slotA

/-- The pair of an entry of slot A and its partner is a slot pair. -/
theorem slotPair_of_partner (hA : refA ∈ slotARefs disks)
    (hB : (pairing disks).partner refA = some refB) : SlotPair disks refA refB := by
  have hpair := isPair_of_partner hB
  obtain ⟨base, hbase, htextA, htextB⟩ := areEntriesSlotPair_iff.mp hpair.names
  have hslot := (mem_slotARefs.mp hA).2
  unfold isSlotA at hslot
  rw [Bool.and_eq_true, Bool.not_eq_true'] at hslot
  exact ⟨_, _, base, usedEntry_iff.mpr ⟨hpair.validA, rfl, hslot.1⟩,
    usedEntry_iff.mpr ⟨hpair.validB, rfl, hpair.usedB⟩, hbase, htextA, htextB⟩

theorem SlotPair.mem_slotARefs (h : SlotPair disks refA refB) : refA ∈ slotARefs disks := by
  obtain ⟨entryA, entryB, base, hA, -, hbase, htextA, -⟩ := h
  obtain ⟨hvalid, rfl, hused⟩ := usedEntry_iff.mp hA
  refine ProjectMu.mem_slotARefs.mpr ⟨hvalid, ?_⟩
  unfold isSlotA
  rw [hused, doesPartitionNameEndWithSlot_iff_exists.mpr ⟨base, hbase, htextA⟩]
  rfl

/-- An entry of slot A that is in a slot pair has a partner, with the name of slot B. -/
theorem SlotPair.exists_partner (h : SlotPair disks refA refB) :
    ∃ refB', (pairing disks).partner refA = some refB' ∧
      (entryOf (rawEntry disks false refB')).text = (entryOf (rawEntry disks false refB)).text := by
  obtain ⟨entryA, entryB, base, hA, hB, hbase, htextA, htextB⟩ := h
  obtain ⟨hvalidA, rfl, husedA⟩ := usedEntry_iff.mp hA
  obtain ⟨hvalidB, rfl, husedB⟩ := usedEntry_iff.mp hB
  have hsome : (findSlotBEntry disks (entryOf (rawEntry disks false refA))).isSome = true := by
    unfold findSlotBEntry
    rw [List.find?_isSome]
    refine ⟨refB, mem_entryRefs.mpr hvalidB, ?_⟩
    rw [gptEntryAt_of_valid hvalidB, Option.any_some, husedB,
      areEntriesSlotPair_iff.mpr ⟨base, hbase, htextA, htextB⟩]
    rfl
  obtain ⟨refB', hfind⟩ := Option.isSome_iff_exists.mp hsome
  have hpartner : (pairing disks).partner refA = some refB' := by
    change (gptEntryAt disks false refA).bind _ = _
    rw [gptEntryAt_of_valid hvalidA, Option.bind_some, hfind]
  obtain ⟨base', -, htextA', htextB'⟩ := areEntriesSlotPair_iff.mp
    (isPair_of_partner hpartner).names
  rw [htextA] at htextA'
  have hsame : base = base' := List.append_cancel_right htextA'
  exact ⟨refB', hpartner, by rw [htextB', htextB, hsame]⟩

section Unique

variable (hunique : NamesUnique disks)

include hunique

theorem SlotPair.partner (h : SlotPair disks refA refB) :
    (pairing disks).partner refA = some refB := by
  obtain ⟨refB', hpartner, htext⟩ := h.exists_partner
  obtain ⟨entryA, entryB, base, -, hB, -⟩ := h
  obtain ⟨hvalidB, rfl, husedB⟩ := usedEntry_iff.mp hB
  have hpair := isPair_of_partner hpartner
  have hsame := hunique refB' refB _ _ (usedEntry_iff.mpr ⟨hpair.validB, rfl, hpair.usedB⟩)
    (usedEntry_iff.mpr ⟨hvalidB, rfl, husedB⟩) htext
  rw [← hsame]
  exact hpartner

theorem apart : Apart (pairing disks) (slotARefs disks) where
  toSided := sided disks
  partner_inj := by
    intro a ha a' ha' b hb hb'
    obtain ⟨entryA, entryB, base, hA, hB, -, htextA, htextB⟩ := slotPair_of_partner ha hb
    obtain ⟨entryA', entryB', base', hA', hB', -, htextA', htextB'⟩ := slotPair_of_partner ha' hb'
    have hsameB : entryB = entryB' := Option.some.inj (hB.1.symm.trans hB'.1)
    rw [hsameB, htextB'] at htextB
    have hbase : base' = base := List.append_cancel_right htextB
    exact hunique a a' entryA entryA' hA hA' (by rw [htextA, htextA', hbase])

/-- The pairs that the run switches are the active slot pairs. -/
theorem mem_livePairs_iff (hpass : ∀ a ∈ slotARefs disks, ∀ b, (pairing disks).partner a = some b →
      Idle entryAccess (copiesAt disks a) (copiesAt disks b) ∨
        (pairSlot entryAccess (copiesAt disks a) (copiesAt disks b)).isSome = true) :
    (refA, refB) ∈ livePairs entryAccess (pairing disks) (copiesAt disks) (slotARefs disks) ↔
      ActivePair disks refA refB := by
  rw [mem_livePairs]
  constructor
  · rintro ⟨hA, hB, hlive⟩
    have hpair := isPair_of_partner hB
    refine ⟨slotPair_of_partner hA hB, ?_⟩
    rw [activeAt_iff, activeAt_iff]
    obtain ⟨slot, hslot⟩ := Option.isSome_iff_exists.mp hlive
    obtain ⟨ha, hb⟩ := pairSlot_eq_some.mp hslot
    cases slot with
    | a => exact Or.inl ⟨hpair.validA, ha⟩
    | b => exact Or.inr ⟨hpair.validB, hb⟩
  · rintro ⟨hpair, hactive⟩
    have hA := hpair.mem_slotARefs
    have hB := hpair.partner hunique
    refine ⟨hA, hB, ?_⟩
    rcases hpass refA hA refB hB with hidle | hlive
    · rw [activeAt_iff, activeAt_iff, hidle.1, hidle.2] at hactive
      simp at hactive
    · exact hlive

end Unique

end ProjectMu
