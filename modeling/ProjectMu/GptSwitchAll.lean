import ProjectMu.GptSwitchPair
import ProjectMu.SlotSwitchApart

/-!
# Switching all pairs is an abstract run

The loops of `switchAllGptPairs` look at names and at whether an entry is used; neither
changes while they run, although type GUIDs do. The partner of an entry is therefore the
one it had at the start, and the loops are a run over the entries of slot A with that
fixed pairing. `Tracks` relates the disks in the middle of the loops to the run.
-/

namespace ProjectMu

open ByteCodec ByteRange SlotSwitch

/-- What the loops look at, apart from type GUIDs and the active attribute. -/
structure EntryLabel where
  unused : Bool
  name : List.Vector (BitVec 16) gptMaxNameLength
  backupName : List.Vector (BitVec 16) gptMaxNameLength
  deriving DecidableEq

def EntryCopies.label (copies : EntryCopies) : EntryLabel :=
  ⟨isGptEntryUnused (entryOf copies.primary), (entryOf copies.primary).partitionName,
    (entryOf copies.backup).partitionName⟩

/-- The second entry of each pair, and whether the backup names of a pair match. -/
def pairing (disks : List GptDisk) : Pairing EntryRef where
  partner ref := (gptEntryAt disks false ref).bind (findSlotBEntry disks)
  sound refA refB :=
    areEntryNamesEqual (entryOf (rawEntry disks true refA)) (entryOf (rawEntry disks false refA)) &&
    areEntryNamesEqual (entryOf (rawEntry disks true refB)) (entryOf (rawEntry disks false refB))

/-- The entries of slot A, in the order of the loops. -/
def slotARefs (disks : List GptDisk) : List EntryRef :=
  (entryRefs disks).filter (fun ref => (gptEntryAt disks false ref).any isSlotA)

section Label

variable {entry entry' entryB entryB' : EfiPartitionEntry}

theorem areEntriesSlotPair_congr (h : entry.partitionName = entry'.partitionName)
    (hB : entryB.partitionName = entryB'.partitionName) :
    areEntriesSlotPair entry entryB = areEntriesSlotPair entry' entryB' := by
  unfold areEntriesSlotPair doesPartitionNameEndWithSlot
  rw [h, hB]

theorem areEntryNamesEqual_congr (h : entry.partitionName = entry'.partitionName)
    (hB : entryB.partitionName = entryB'.partitionName) :
    areEntryNamesEqual entry entryB = areEntryNamesEqual entry' entryB' := by
  unfold areEntryNamesEqual
  rw [h, hB]

theorem isSlotA_congr (h : isGptEntryUnused entry = isGptEntryUnused entry')
    (hname : entry.partitionName = entry'.partitionName) : isSlotA entry = isSlotA entry' := by
  unfold isSlotA doesPartitionNameEndWithSlot
  rw [h, hname]

theorem label_put (copies : EntryCopies) (guid : BitVec 128) (active : Bool) :
    (entryAccess.put copies guid active).label = { copies.label with unused := guid == 0 } := by
  change EntryLabel.mk _ _ _ = _
  simp only [entryAccess, entryOf_rewriteRaw]
  rfl

end Label

/-- The same tables with the same labels. -/
structure SameLayout (disks disks' : List GptDisk) : Prop where
  tables : SameTables disks disks'
  label : ∀ ref, (copiesAt disks' ref).label = (copiesAt disks ref).label

namespace SameLayout

variable {disks disks' : List GptDisk} (h : SameLayout disks disks')

include h

theorem name_eq (ref : EntryRef) : (entryOf (rawEntry disks' false ref)).partitionName =
    (entryOf (rawEntry disks false ref)).partitionName :=
  congrArg EntryLabel.name (h.label ref)

theorem backupName_eq (ref : EntryRef) : (entryOf (rawEntry disks' true ref)).partitionName =
    (entryOf (rawEntry disks true ref)).partitionName :=
  congrArg EntryLabel.backupName (h.label ref)

theorem unused_eq (ref : EntryRef) : isGptEntryUnused (entryOf (rawEntry disks' false ref)) =
    isGptEntryUnused (entryOf (rawEntry disks false ref)) :=
  congrArg EntryLabel.unused (h.label ref)

theorem findSlotBEntry_eq {entry entry' : EfiPartitionEntry}
    (hname : entry'.partitionName = entry.partitionName) :
    findSlotBEntry disks' entry' = findSlotBEntry disks entry := by
  unfold findSlotBEntry
  rw [h.tables.entryRefs]
  apply List.find?_congr
  intro ref hmem
  have hvalid := mem_entryRefs.mp hmem
  rw [gptEntryAt_of_valid hvalid, gptEntryAt_of_valid (h.tables.validRef.mpr hvalid),
    Option.any_some, Option.any_some, h.unused_eq,
    areEntriesSlotPair_congr hname (h.name_eq ref)]

theorem pairing_eq : pairing disks' = pairing disks := by
  unfold pairing
  congr 1
  · funext ref
    by_cases hvalid : ValidRef disks ref
    · rw [gptEntryAt_of_valid hvalid, gptEntryAt_of_valid (h.tables.validRef.mpr hvalid)]
      exact h.findSlotBEntry_eq (h.name_eq ref)
    · have hnone {l : List GptDisk} (hl : ¬ ValidRef l ref) : gptEntryAt l false ref = none := by
        by_contra hsome
        obtain ⟨entry, he⟩ := Option.ne_none_iff_exists'.mp hsome
        exact hl (gptEntryAt_eq_some.mp he).1
      rw [hnone hvalid, hnone (fun hv => hvalid (h.tables.validRef.mp hv))]
      rfl
  · funext refA refB
    rw [areEntryNamesEqual_congr (h.backupName_eq refA) (h.name_eq refA),
      areEntryNamesEqual_congr (h.backupName_eq refB) (h.name_eq refB)]

theorem slotARefs_eq : slotARefs disks' = slotARefs disks := by
  unfold slotARefs
  rw [h.tables.entryRefs]
  apply List.filter_congr
  intro ref hmem
  have hvalid := mem_entryRefs.mp hmem
  rw [gptEntryAt_of_valid hvalid, gptEntryAt_of_valid (h.tables.validRef.mpr hvalid),
    Option.any_some, Option.any_some]
  exact isSlotA_congr (h.unused_eq ref) (h.name_eq ref)

end SameLayout

section Pair

variable {disks : List GptDisk} {refA refB : EntryRef}

/-- The facts behind a partner: both entries exist, are used, and are a slot pair. -/
structure IsPair (disks : List GptDisk) (refA refB : EntryRef) : Prop where
  validA : ValidRef disks refA
  validB : ValidRef disks refB
  usedB : isGptEntryUnused (entryOf (rawEntry disks false refB)) = false
  names : areEntriesSlotPair (entryOf (rawEntry disks false refA))
    (entryOf (rawEntry disks false refB)) = true

theorem isPair_of_partner (h : (pairing disks).partner refA = some refB) :
    IsPair disks refA refB := by
  obtain ⟨entryA, hA, hfind⟩ := Option.bind_eq_some_iff.mp h
  obtain ⟨hvalidA, rfl⟩ := gptEntryAt_eq_some.mp hA
  have hvalidB := mem_entryRefs.mp (List.mem_of_find?_eq_some hfind)
  have hprop := List.find?_some hfind
  rw [gptEntryAt_of_valid hvalidB, Option.any_some, Bool.and_eq_true, Bool.not_eq_true'] at hprop
  exact ⟨hvalidA, hvalidB, hprop.1, hprop.2⟩

/-- The two names of a pair differ in their last character. -/
theorem IsPair.ne (h : IsPair disks refA refB) : refA ≠ refB := by
  intro he
  obtain ⟨base, -, hA, hB⟩ := areEntriesSlotPair_iff.mp h.names
  rw [he, hB] at hA
  have hsuffix := List.append_cancel_left hA
  simp [charA, charB] at hsuffix

theorem switchGptPair_eq (h : IsPair disks refA refB) (targetSlot : AbSlot) :
    switchGptPair disks refA refB targetSlot.other targetSlot =
      if (pairing disks).sound refA refB = false then .error .compromisedData
      else if Idle entryAccess (copiesAt disks refA) (copiesAt disks refB) then .error .notReady
      else if pairSlot entryAccess (copiesAt disks refA) (copiesAt disks refB) =
          some targetSlot.other then
        .ok (switchedDisks disks refA refB (entryAccess.kind (copiesAt disks refB))
          (entryAccess.kind (copiesAt disks refA)) targetSlot)
      else .error .compromisedData := by
  unfold switchGptPair
  rw [gptEntryAt_of_valid h.validA, gptEntryAt_of_valid h.validB, gptEntryAt_of_valid h.validA,
    gptEntryAt_of_valid h.validB]
  have hactive (ref : EntryRef) : entryAccess.active (copiesAt disks ref) =
      isActive (entryOf (rawEntry disks false ref)) := rfl
  have hkind (ref : EntryRef) : entryAccess.kind (copiesAt disks ref) =
      (entryOf (rawEntry disks false ref)).partitionTypeGUID := rfl
  simp only [h.names, pairing, Bool.and_eq_false_iff, Bool.true_eq_false, false_or, Idle, pairSlot,
    hactive, hkind]
  cases isActive (entryOf (rawEntry disks false refA)) <;>
    cases isActive (entryOf (rawEntry disks false refB)) <;> cases targetSlot <;>
    simp [Slot.other, switchedDisks]

theorem modified_switchedDisks (guidA guidB : BitVec 128) (targetSlot : AbSlot) (i : ℕ) :
    ((switchedDisks disks refA refB guidA guidB targetSlot)[i]?).map (·.modified) =
      (disks[i]?).map (fun disk => disk.modified || (refA.disk == i || refB.disk == i)) := by
  have hmark (ref : EntryRef) (l : List GptDisk) : ((markModified ref l)[i]?).map (·.modified) =
      ((l[i]?).map (·.modified)).map (fun m => m || ref.disk == i) := by
    unfold markModified
    rw [List.getElem?_modify]
    cases l[i]? with
    | none => rfl
    | some disk => by_cases hi : ref.disk = i <;> simp [hi]
  have hset (backup : Bool) (ref : EntryRef) (guid : BitVec 128) (active : Bool)
      (l : List GptDisk) : ((setSlotStateAt backup ref guid active l)[i]?).map (·.modified) =
        (l[i]?).map (·.modified) := by
    have hmap := @modified_setSlotStateAt l backup ref guid active
    simpa only [List.getElem?_map] using congrArg (fun m => m[i]?) hmap
  unfold switchedDisks
  rw [hmark, hmark, hset, hset, hset, hset]
  cases disks[i]? with
  | none => rfl
  | some disk => simp [Bool.or_assoc]

theorem sameLayout_switchedDisks (h : IsPair disks refA refB)
    (husedA : isGptEntryUnused (entryOf (rawEntry disks false refA)) = false)
    (targetSlot : AbSlot) :
    SameLayout disks (switchedDisks disks refA refB (entryAccess.kind (copiesAt disks refB))
      (entryAccess.kind (copiesAt disks refA)) targetSlot) := by
  refine ⟨sameTables_switchedDisks _ _ _ _ _, ?_⟩
  intro ref
  rw [copiesAt_switchedDisks h.validA h.validB h.ne]
  -- The exchanged type GUIDs are those of used entries, so both entries stay used.
  by_cases hb : ref = refB
  · rw [hb, switchPair_snd, label_put]
    exact congrArg (fun u => { (copiesAt disks refB).label with unused := u })
      (husedA.trans h.usedB.symm)
  · by_cases ha : ref = refA
    · rw [ha, switchPair_fst h.ne, label_put]
      exact congrArg (fun u => { (copiesAt disks refA).label with unused := u })
        (h.usedB.trans husedA.symm)
    · rw [switchPair_of_ne ha hb]

end Pair

/-- The disks and the pair count in the middle of the loops, against a run. -/
structure Tracks (disks : List GptDisk) (pairCount : ℕ) (state : List GptDisk × ℕ)
    (r : Run EntryRef EntryCopies) : Prop where
  layout : SameLayout disks state.1
  cells : copiesAt state.1 = r.state
  count : state.2 = pairCount + r.log.length
  modified : ∀ i, (state.1[i]?).map (·.modified) = (disks[i]?).map (fun disk =>
    disk.modified || r.log.any (fun pair => pair.1.disk == i || pair.2.disk == i))

theorem tracks_refl (disks : List GptDisk) (pairCount : ℕ) :
    Tracks disks pairCount (disks, pairCount) ⟨copiesAt disks, []⟩ := by
  refine ⟨⟨rfl, fun _ => rfl⟩, rfl, rfl, fun i => ?_⟩
  simp only [List.any_nil, Bool.or_false]

section Simulation

variable {disks : List GptDisk} {pairCount : ℕ} {targetSlot : AbSlot}
  {state : List GptDisk × ℕ} {r : Run EntryRef EntryCopies}

theorem mem_slotARefs {ref : EntryRef} : ref ∈ slotARefs disks ↔
    ValidRef disks ref ∧ isSlotA (entryOf (rawEntry disks false ref)) = true := by
  unfold slotARefs
  rw [List.mem_filter, mem_entryRefs]
  constructor
  · rintro ⟨hvalid, hslot⟩
    rw [gptEntryAt_of_valid hvalid, Option.any_some] at hslot
    exact ⟨hvalid, hslot⟩
  · rintro ⟨hvalid, hslot⟩
    rw [gptEntryAt_of_valid hvalid, Option.any_some]
    exact ⟨hvalid, hslot⟩

/-- Disks with a switched pair are tracked by the run that has switched it. -/
theorem Tracks.switched {current : List GptDisk} {n : ℕ} {refA refB : EntryRef}
    (h : Tracks disks pairCount (current, n) r) (hpair : IsPair current refA refB)
    (husedA : isGptEntryUnused (entryOf (rawEntry current false refA)) = false)
    (targetSlot : AbSlot) :
    Tracks disks pairCount (switchedDisks current refA refB
        (entryAccess.kind (copiesAt current refB)) (entryAccess.kind (copiesAt current refA))
        targetSlot, n + 1)
      ⟨switchPair entryAccess targetSlot (copiesAt current) refA refB, r.log ++ [(refA, refB)]⟩ where
  layout := by
    have hnew := sameLayout_switchedDisks hpair husedA targetSlot
    exact ⟨hnew.tables.trans h.layout.tables,
      fun ref => (hnew.label ref).trans (h.layout.label ref)⟩
  cells := copiesAt_switchedDisks hpair.validA hpair.validB hpair.ne targetSlot
  count := by
    have hcount : n = pairCount + r.log.length := h.count
    rw [List.length_append, List.length_singleton]
    omega
  modified i := by
    have hi : (current[i]?).map (·.modified) = (disks[i]?).map (fun disk => disk.modified ||
      r.log.any (fun pair => pair.1.disk == i || pair.2.disk == i)) := h.modified i
    rw [modified_switchedDisks]
    simp only [List.any_append, List.any_cons, List.any_nil, Bool.or_false]
    cases hc : current[i]? with
    | none =>
      rw [hc] at hi
      rw [Option.map_eq_none_iff.mp hi.symm]
      rfl
    | some disk =>
      rw [hc] at hi
      obtain ⟨disk₀, hd, hm⟩ := Option.map_eq_some_iff.mp hi.symm
      change _ = disk.modified at hm
      rw [hd, Option.map_some, Option.map_some, ← hm, Bool.or_assoc]

/-- An iteration on an entry of slot A is a step of the run. -/
theorem switchEntry_simulates (targetSlot : AbSlot) (h : Tracks disks pairCount state r)
    {ref : EntryRef}
    (href : ref ∈ slotARefs disks) :
    match step entryAccess (pairing disks) targetSlot r ref with
    | some r' => ∃ state', switchEntry targetSlot.other targetSlot state ref = .ok state' ∧
        Tracks disks pairCount state' r'
    | none => ∃ e, switchEntry targetSlot.other targetSlot state ref = .error e := by
  obtain ⟨hlayout, hcells, hcount, hmodified⟩ := h
  obtain ⟨current, n⟩ := state
  dsimp only at hlayout hcells hcount hmodified
  have href' : ref ∈ slotARefs current := hlayout.slotARefs_eq ▸ href
  obtain ⟨hvalid, hslot⟩ := mem_slotARefs.mp href'
  have hpartner : (pairing disks).partner ref =
      findSlotBEntry current (entryOf (rawEntry current false ref)) := by
    rw [← hlayout.pairing_eq]
    change (gptEntryAt current false ref).bind _ = _
    rw [gptEntryAt_of_valid hvalid, Option.bind_some]
  unfold switchEntry step
  simp only [gptEntryAt_of_valid hvalid, Option.filter_some, hslot, if_true, hpartner]
  cases hfind : findSlotBEntry current (entryOf (rawEntry current false ref)) with
  | none => exact ⟨(current, n), rfl, hlayout, hcells, hcount, hmodified⟩
  | some refB =>
    have hpair : IsPair current ref refB := by
      apply isPair_of_partner
      rw [hlayout.pairing_eq, hpartner, hfind]
    have husedA : isGptEntryUnused (entryOf (rawEntry current false ref)) = false := by
      unfold isSlotA at hslot
      rw [Bool.and_eq_true, Bool.not_eq_true'] at hslot
      exact hslot.1
    simp only [switchGptPair_eq hpair, ← hlayout.pairing_eq, ← hcells]
    split_ifs with hsound hidle hlive
    · exact ⟨_, rfl⟩
    · exact ⟨(current, n), rfl, hlayout, hcells, hcount, hmodified⟩
    · exact ⟨_, rfl, Tracks.switched ⟨hlayout, hcells, hcount, hmodified⟩ hpair husedA targetSlot⟩
    · exact ⟨_, rfl⟩

/-- Any other entry is none of slot A in the middle of the loops either. -/
theorem Tracks.filter_isSlotA (h : Tracks disks pairCount state r) {ref : EntryRef}
    (href : ref ∉ slotARefs disks) : (gptEntryAt state.1 false ref).filter isSlotA = none := by
  by_contra hsome
  obtain ⟨entry, he⟩ := Option.ne_none_iff_exists'.mp hsome
  obtain ⟨hat, hslot⟩ := Option.filter_eq_some_iff.mp he
  obtain ⟨hvalid, rfl⟩ := gptEntryAt_eq_some.mp hat
  have hmem : ref ∈ slotARefs state.1 := mem_slotARefs.mpr ⟨hvalid, hslot⟩
  exact href (h.layout.slotARefs_eq ▸ hmem)

/-- An iteration on any other entry does nothing. -/
theorem switchEntry_skip (h : Tracks disks pairCount state r) {ref : EntryRef}
    (href : ref ∉ slotARefs disks) :
    switchEntry targetSlot.other targetSlot state ref = .ok state := by
  unfold switchEntry
  rw [h.filter_isSlotA href]

theorem foldlM_switchEntry_simulates {refs : List EntryRef} (h : Tracks disks pairCount state r) :
    match run entryAccess (pairing disks) targetSlot r
        (refs.filter (fun ref => ref ∈ slotARefs disks)) with
    | some r' => ∃ state', refs.foldlM (switchEntry targetSlot.other targetSlot) state =
        .ok state' ∧ Tracks disks pairCount state' r'
    | none => ∃ e, refs.foldlM (switchEntry targetSlot.other targetSlot) state = .error e := by
  induction refs generalizing state r with
  | nil => exact ⟨state, rfl, h⟩
  | cons ref refs ih =>
    rw [List.foldlM_cons]
    by_cases href : ref ∈ slotARefs disks
    · have hstep := switchEntry_simulates targetSlot h href
      rw [List.filter_cons, if_pos (by simpa using href), run_cons]
      cases hs : step entryAccess (pairing disks) targetSlot r ref with
      | none =>
        rw [hs] at hstep
        obtain ⟨e, he⟩ := hstep
        rw [he]
        exact ⟨e, rfl⟩
      | some r₁ =>
        rw [hs] at hstep
        obtain ⟨state₁, he, htracks⟩ := hstep
        rw [he]
        exact ih htracks
    · rw [List.filter_cons, if_neg (by simpa using href), switchEntry_skip h href]
      exact ih h

theorem filter_mem_slotARefs (disks : List GptDisk) :
    (entryRefs disks).filter (fun ref => ref ∈ slotARefs disks) = slotARefs disks := by
  apply List.filter_congr
  intro ref hmem
  rw [Bool.eq_iff_iff, decide_eq_true_iff]
  simp only [slotARefs, List.mem_filter, hmem, true_and]

/-- `switchAllGptPairs` succeeds exactly when the run does, on the disks the run tracks. -/
theorem switchAllGptPairs_simulates (disks : List GptDisk) (targetSlot : AbSlot) (pairCount : ℕ) :
    match run entryAccess (pairing disks) targetSlot ⟨copiesAt disks, []⟩ (slotARefs disks) with
    | some r => ∃ state, switchAllGptPairs disks targetSlot.other targetSlot pairCount =
        .ok state ∧ Tracks disks pairCount state r
    | none => ∃ e, switchAllGptPairs disks targetSlot.other targetSlot pairCount = .error e := by
  have hrun := @foldlM_switchEntry_simulates disks pairCount targetSlot (disks, pairCount)
    ⟨copiesAt disks, []⟩ (entryRefs disks) (tracks_refl disks pairCount)
  rwa [filter_mem_slotARefs] at hrun

theorem switchAllGptPairs_tracks {disks disks' : List GptDisk} {targetSlot : AbSlot} {n n' : ℕ}
    (h : switchAllGptPairs disks targetSlot.other targetSlot n = .ok (disks', n')) :
    ∃ r, run entryAccess (pairing disks) targetSlot ⟨copiesAt disks, []⟩ (slotARefs disks) =
      some r ∧ Tracks disks n (disks', n') r := by
  have hsim := switchAllGptPairs_simulates disks targetSlot n
  cases hr : run entryAccess (pairing disks) targetSlot ⟨copiesAt disks, []⟩ (slotARefs disks) with
  | none =>
    rw [hr] at hsim
    obtain ⟨e, he⟩ := hsim
    rw [h] at he
    cases he
  | some r =>
    rw [hr] at hsim
    obtain ⟨state, hok, htracks⟩ := hsim
    rw [h] at hok
    cases hok
    exact ⟨r, rfl, htracks⟩

end Simulation

end ProjectMu
