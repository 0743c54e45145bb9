import ProjectMu.GptActivePairs
import Mathlib.Data.Set.Card

/-!
# The exact effect of switching all pairs

Where no two used entries have the same name, `switchAllGptPairs` exchanges the primary
type GUIDs of every active pair and moves the active attribute to the target slot, in both
arrays, and leaves every other byte of both arrays as it was.
-/

namespace ProjectMu

open ByteCodec ByteRange SlotSwitch

/-- An entry of which only the type GUID and the active attribute were set. -/
structure EntrySwitched (raw raw' : List Byte) (guid : BitVec 128) (active : Bool) : Prop where
  typeGuid : (entryOf raw').partitionTypeGUID = guid
  slotBit : (entryOf raw').attributes.getLsbD 50 = active
  otherBits : ∀ i, i ≠ 50 →
    (entryOf raw').attributes.getLsbD i = (entryOf raw).attributes.getLsbD i
  uniqueGuid : (entryOf raw').uniquePartitionGUID = (entryOf raw).uniquePartitionGUID
  startingLBA : (entryOf raw').startingLBA = (entryOf raw).startingLBA
  endingLBA : (entryOf raw').endingLBA = (entryOf raw).endingLBA
  name : (entryOf raw').partitionName = (entryOf raw).partitionName
  rest : raw'.drop entryCodec.size = raw.drop entryCodec.size

theorem entrySwitched_rewriteRaw (raw : List Byte) (guid : BitVec 128) (active : Bool) :
    EntrySwitched raw (rewriteRaw raw guid active) guid active := by
  have hentry := entryOf_rewriteRaw raw guid active
  have hdrop : (rewriteRaw raw guid active).drop entryCodec.size = raw.drop entryCodec.size := by
    rw [rewriteRaw, splice_zero, List.drop_left' (entryCodec.length_encode _)]
  refine ⟨?_, ?_, ?_, ?_, ?_, ?_, ?_, hdrop⟩
  · rw [hentry]
    rfl
  · rw [hentry, ← isActive_eq, isActive_setGptEntrySlotState]
  · intro i hi
    rw [hentry]
    by_cases hlt : i < 64
    · rw [setGptEntrySlotState_attributes _ _ _ hlt, if_neg hi]
    · rw [BitVec.getLsbD_of_ge _ _ (not_lt.mp hlt), BitVec.getLsbD_of_ge _ _ (not_lt.mp hlt)]
  · rw [hentry]
    rfl
  · rw [hentry]
    rfl
  · rw [hentry]
    rfl
  · rw [hentry]
    rfl

def typeGuidAt (disks : List GptDisk) (ref : EntryRef) : BitVec 128 :=
  (entryOf (rawEntry disks false ref)).partitionTypeGUID

structure SwitchEffect (targetSlot : AbSlot) (disks disks' : List GptDisk)
    (pairCount pairCount' : ℕ) :
    Prop where
  tables : SameTables disks disks'
  switched : ∀ refA refB, ActivePair disks refA refB → ∀ backup,
    EntrySwitched (rawEntry disks backup refA) (rawEntry disks' backup refA)
      (typeGuidAt disks refB) (targetSlot = .a) ∧
    EntrySwitched (rawEntry disks backup refB) (rawEntry disks' backup refB)
      (typeGuidAt disks refA) (targetSlot = .b)
  untouched : ∀ ref, (∀ other, ¬ ActivePair disks ref other ∧ ¬ ActivePair disks other ref) →
    ∀ backup, rawEntry disks' backup ref = rawEntry disks backup ref
  count : pairCount' =
    pairCount + {pair : EntryRef × EntryRef | ActivePair disks pair.1 pair.2}.ncard
  modified : ∀ i disk disk', disks[i]? = some disk → disks'[i]? = some disk' →
    (disk'.modified = true ↔ disk.modified = true ∨
      ∃ refA refB, ActivePair disks refA refB ∧ (refA.disk = i ∨ refB.disk = i))

variable {disks disks' : List GptDisk} {currentSlot targetSlot : AbSlot} {n n' : ℕ}
  {r : Run EntryRef EntryCopies}

theorem passed_of_run (hunique : NamesUnique disks)
    (hrun : run entryAccess (pairing disks) targetSlot ⟨copiesAt disks, []⟩ (slotARefs disks) =
      some r) : ∀ a ∈ slotARefs disks, ∀ b, (pairing disks).partner a = some b →
      Idle entryAccess (copiesAt disks a) (copiesAt disks b) ∨
        (pairSlot entryAccess (copiesAt disks a) (copiesAt disks b)).isSome = true := by
  intro a ha b hb
  obtain ⟨⟨-, hidle | hlive⟩, -⟩ := run_pair (apart hunique) hrun ha hb
  · exact Or.inl hidle
  · right
    exact Option.isSome_iff_exists.mpr ⟨_, hlive⟩

theorem log_eq_livePairs (hunique : NamesUnique disks)
    (hrun : run entryAccess (pairing disks) targetSlot ⟨copiesAt disks, []⟩ (slotARefs disks) =
      some r) :
    r.log = livePairs entryAccess (pairing disks) (copiesAt disks) (slotARefs disks) :=
  run_log (apart hunique) hrun

theorem nodup_livePairs (s : EntryRef → EntryCopies) :
    (livePairs entryAccess (pairing disks) s (slotARefs disks)).Nodup := by
  apply List.Nodup.filterMap ?_ (sided disks).nodup
  intro a a' pair ha ha'
  obtain ⟨b, -, hb⟩ := Option.bind_eq_some_iff.mp ha
  obtain ⟨b', -, hb'⟩ := Option.bind_eq_some_iff.mp ha'
  rw [Option.ite_none_right_eq_some] at hb hb'
  have hfst := congrArg (Option.map Prod.fst) (hb.2.trans hb'.2.symm)
  exact Option.some.inj hfst

/-- The run over uniquely named entries switches exactly the active pairs. -/
theorem run_pair_active (hunique : NamesUnique disks)
    (hrun : run entryAccess (pairing disks) targetSlot ⟨copiesAt disks, []⟩ (slotARefs disks) =
      some r) {refA refB : EntryRef} (h : ActivePair disks refA refB) :
    r.state refA = entryAccess.put (copiesAt disks refA) (entryAccess.kind (copiesAt disks refB))
        (decide (targetSlot = .a)) ∧
      r.state refB = entryAccess.put (copiesAt disks refB)
        (entryAccess.kind (copiesAt disks refA)) (decide (targetSlot = .b)) := by
  obtain ⟨hA, hB, hlive⟩ := mem_livePairs.mp
    ((mem_livePairs_iff hunique (passed_of_run hunique hrun)).mpr h)
  obtain ⟨-, ⟨hidle, -⟩ | ⟨-, hstate⟩⟩ := run_pair (apart hunique) hrun hA hB
  · rw [pairSlot_of_idle hidle] at hlive
    cases hlive
  · exact hstate

theorem run_inactive (hunique : NamesUnique disks)
    (hrun : run entryAccess (pairing disks) targetSlot ⟨copiesAt disks, []⟩ (slotARefs disks) =
      some r) {ref : EntryRef}
    (h : ∀ other, ¬ ActivePair disks ref other ∧ ¬ ActivePair disks other ref) :
    r.state ref = copiesAt disks ref := by
  have hidle {a b : EntryRef} (ha : a ∈ slotARefs disks) (hb : (pairing disks).partner a = some b)
      (hnot : ¬ ActivePair disks a b) : r.state a = copiesAt disks a ∧
        r.state b = copiesAt disks b := by
    obtain ⟨-, ⟨-, hstate⟩ | ⟨hlive, -⟩⟩ := run_pair (apart hunique) hrun ha hb
    · exact hstate
    · refine absurd ((mem_livePairs_iff hunique (passed_of_run hunique hrun)).mp ?_) hnot
      exact mem_livePairs.mpr ⟨ha, hb, Option.isSome_iff_exists.mpr ⟨_, hlive⟩⟩
  by_cases hmem : ref ∈ slotARefs disks
  · cases hp : (pairing disks).partner ref with
    | some b => exact (hidle hmem hp (h b).1).1
    | none =>
      exact run_of_partner_none hrun (sided disks) hmem hp
  · by_cases hpartner : ∃ a ∈ slotARefs disks, (pairing disks).partner a = some ref
    · obtain ⟨a, ha, hp⟩ := hpartner
      exact (hidle ha hp (h a).2).2
    · exact run_of_not_mem hrun hmem (fun a ha hp => hpartner ⟨a, ha, hp⟩)

/-- The run records exactly the active pairs, each of them once. -/
theorem mem_log_iff (hunique : NamesUnique disks)
    (hrun : run entryAccess (pairing disks) targetSlot ⟨copiesAt disks, []⟩ (slotARefs disks) =
      some r) {refA refB : EntryRef} : (refA, refB) ∈ r.log ↔ ActivePair disks refA refB := by
  rw [log_eq_livePairs hunique hrun]
  exact mem_livePairs_iff hunique (passed_of_run hunique hrun)

theorem ncard_activePairs (hunique : NamesUnique disks)
    (hrun : run entryAccess (pairing disks) targetSlot ⟨copiesAt disks, []⟩ (slotARefs disks) =
      some r) :
    {pair : EntryRef × EntryRef | ActivePair disks pair.1 pair.2}.ncard = r.log.length := by
  have hnodup : r.log.Nodup := by
    rw [log_eq_livePairs hunique hrun]
    exact nodup_livePairs _
  have hset : {pair : EntryRef × EntryRef | ActivePair disks pair.1 pair.2} =
      ((r.log.toFinset : Finset (EntryRef × EntryRef)) : Set (EntryRef × EntryRef)) := by
    ext pair
    rw [Finset.mem_coe, List.mem_toFinset]
    exact (mem_log_iff hunique hrun).symm
  rw [hset, Set.ncard_coe_finset, List.toFinset_card_of_nodup hnodup]

theorem switchAllGptPairs_effect (hslots : currentSlot ≠ targetSlot) (hunique : NamesUnique disks)
    (h : switchAllGptPairs disks currentSlot targetSlot n = .ok (disks', n')) :
    SwitchEffect targetSlot disks disks' n n' := by
  rw [Slot.eq_other hslots] at h
  obtain ⟨r, hrun, htracks⟩ := switchAllGptPairs_tracks h
  have hcells (ref : EntryRef) : copiesAt disks' ref = r.state ref :=
    congrFun htracks.cells ref
  have hraw {ref : EntryRef} {copies : EntryCopies} (he : r.state ref = copies) :
      rawEntry disks' false ref = copies.primary ∧ rawEntry disks' true ref = copies.backup := by
    rw [← he, ← hcells]
    exact ⟨rfl, rfl⟩
  refine ⟨htracks.layout.tables, ?_, ?_, ?_, ?_⟩
  · intro refA refB hpair backup
    obtain ⟨hA, hB⟩ := run_pair_active hunique hrun hpair
    cases backup with
    | false =>
      rw [(hraw hA).1, (hraw hB).1]
      exact ⟨entrySwitched_rewriteRaw _ _ _, entrySwitched_rewriteRaw _ _ _⟩
    | true =>
      rw [(hraw hA).2, (hraw hB).2]
      exact ⟨entrySwitched_rewriteRaw _ _ _, entrySwitched_rewriteRaw _ _ _⟩
  · intro ref hnot backup
    have hstate := run_inactive hunique hrun hnot
    cases backup with
    | false => exact (hraw hstate).1
    | true => exact (hraw hstate).2
  · rw [ncard_activePairs hunique hrun]
    exact htracks.count
  · intro i disk disk' hd hd'
    have hm := htracks.modified i
    rw [hd', hd, Option.map_some, Option.map_some, Option.some.injEq] at hm
    rw [hm, Bool.or_eq_true, List.any_eq_true]
    refine or_congr Iff.rfl ?_
    constructor
    · rintro ⟨⟨refA, refB⟩, hmem, hi⟩
      exact ⟨refA, refB, (mem_log_iff hunique hrun).mp hmem, by simpa using hi⟩
    · rintro ⟨refA, refB, hpair, hi⟩
      exact ⟨(refA, refB), (mem_log_iff hunique hrun).mpr hpair, by simpa using hi⟩

theorem switchAllGptPairs_effect_xbl : SwitchEffect .b [xblDisk] [xblSwitched] 0 1 :=
  switchAllGptPairs_effect (by decide) namesUnique_xbl switchAllGptPairs_xbl

end ProjectMu
