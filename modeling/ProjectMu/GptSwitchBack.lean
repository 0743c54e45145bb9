import ProjectMu.GptDetect

/-!
# Switching back

After a successful switch from the detected slot, detection gives the other slot, and a
switch back succeeds on as many pairs and restores every primary entry array.
-/

namespace ProjectMu

open ByteCodec ByteRange SlotSwitch

variable {disks disks' : List GptDisk} {slot : AbSlot}

/-- An entry found by name is a used entry of its disk with that name. -/
theorem findGptEntryByName_eq_some {i : ℕ} {disk : GptDisk} (hdisk : disks[i]? = some disk)
    {partitionName : List (BitVec 16)} {entry : EfiPartitionEntry}
    (h : findGptEntryByName disk partitionName = some entry) :
    ∃ j, UsedEntry disks ⟨i, j⟩ entry ∧ entry.text = partitionName := by
  unfold findGptEntryByName at h
  have hmem := List.mem_of_find?_eq_some h
  have hprop := List.find?_some h
  obtain ⟨j, -, hj⟩ := List.mem_filterMap.mp hmem
  rw [Bool.and_eq_true, Bool.not_eq_true', isPartitionNameEqual_iff] at hprop
  refine ⟨j, ⟨?_, hprop.1⟩, hprop.2⟩
  rw [gptEntryAt, hdisk, Option.bind_some, hj]

theorem findGptEntryByName_isSome {i j : ℕ} {disk : GptDisk} (hdisk : disks[i]? = some disk)
    {partitionName : List (BitVec 16)} {entry : EfiPartitionEntry}
    (h : UsedEntry disks ⟨i, j⟩ entry) (htext : entry.text = partitionName) :
    (findGptEntryByName disk partitionName).isSome = true := by
  unfold findGptEntryByName
  rw [List.find?_isSome]
  have hat := h.1
  rw [gptEntryAt, hdisk, Option.bind_some] at hat
  refine ⟨entry, List.mem_filterMap.mpr ⟨j, ?_, hat⟩, ?_⟩
  · rw [List.mem_range]
    rw [getGptEntry] at hat
    split_ifs at hat with hle
    exact not_le.mp hle
  · rw [h.2, isPartitionNameEqual_iff.mpr htext]
    rfl

/-- A disk without both boot entries is skipped. -/
theorem detectActiveSlotFromBoot_skip {disk : GptDisk}
    (h : findGptEntryByName disk bootA = none ∨ findGptEntryByName disk bootB = none) :
    detectActiveSlotFromBoot (disk :: disks) = detectActiveSlotFromBoot disks := by
  rw [detectActiveSlotFromBoot]
  rcases h with hnone | hnone
  · rw [hnone]
  · rw [hnone]
    cases findGptEntryByName disk bootA <;> rfl

theorem SameLayout.usedEntry (h : SameLayout disks disks') {ref : EntryRef}
    {entry : EfiPartitionEntry} (hu : UsedEntry disks ref entry) :
    UsedEntry disks' ref (entryOf (rawEntry disks' false ref)) ∧
      (entryOf (rawEntry disks' false ref)).text = entry.text := by
  obtain ⟨hvalid, rfl, hused⟩ := usedEntry_iff.mp hu
  refine ⟨usedEntry_iff.mpr ⟨h.tables.validRef.mpr hvalid, rfl, ?_⟩, ?_⟩
  · rw [h.unused_eq, hused]
  · unfold EfiPartitionEntry.text
    rw [h.name_eq]

theorem SameLayout.symm (h : SameLayout disks disks') : SameLayout disks' disks :=
  ⟨Eq.symm h.tables, fun ref => (h.label ref).symm⟩

theorem SameLayout.namesUnique (h : SameLayout disks disks') (hunique : NamesUnique disks) :
    NamesUnique disks' := by
  intro ref ref' entry entry' hentry hentry' htext
  obtain ⟨-, rfl, -⟩ := usedEntry_iff.mp hentry
  obtain ⟨-, rfl, -⟩ := usedEntry_iff.mp hentry'
  obtain ⟨hused, hname⟩ := h.symm.usedEntry hentry
  obtain ⟨hused', hname'⟩ := h.symm.usedEntry hentry'
  exact hunique ref ref' _ _ hused hused' (by rw [hname, hname', htext])

theorem text_bootA : bootA = [0x62, 0x6F, 0x6F, 0x74] ++ [charUnderscore, charA] := rfl

theorem text_bootB : bootB = [0x62, 0x6F, 0x6F, 0x74] ++ [charUnderscore, charB] := rfl

section Back

variable {r : Run EntryRef EntryCopies} {n n' : ℕ} (hunique : NamesUnique disks)
  (hrun : run entryAccess (pairing disks) slot.other ⟨copiesAt disks, []⟩ (slotARefs disks) =
    some r)
  (htracks : Tracks disks n (disks', n') r)

include hunique hrun htracks

/-- Every pair shows the other slot afterwards. -/
theorem observe_after {ref : EntryRef} (hmem : ref ∈ slotARefs disks) :
    observe entryAccess (pairing disks) (copiesAt disks') ref =
      (observe entryAccess (pairing disks) (copiesAt disks) ref).map (fun _ => slot.other) := by
  have hobs := observe_run (apart hunique) hrun hmem
  rwa [← htracks.cells] at hobs

theorem detectActiveSlotFromPairs_after
    (h : detectActiveSlotFromPairs disks = .ok slot) :
    detectActiveSlotFromPairs disks' = .ok slot.other := by
  obtain ⟨⟨ref, hmem, hobs⟩, -⟩ := detectActiveSlotFromPairs_eq_ok.mp h
  have hlayout := htracks.layout
  rw [detectActiveSlotFromPairs_eq_ok, hlayout.slotARefs_eq, hlayout.pairing_eq]
  have hafter {ref : EntryRef} (hmem : ref ∈ slotARefs disks) :=
    observe_after hunique hrun htracks hmem
  refine ⟨⟨ref, hmem, ?_⟩, ?_⟩
  · rw [hafter hmem, hobs, Option.map_some]
  · intro ref' hmem' s hs
    rw [hafter hmem'] at hs
    obtain ⟨-, -, rfl⟩ := Option.map_eq_some_iff.mp hs
    rfl

omit hrun in
/-- Where names are unique, a search by name finds the same entry after the switch. -/
theorem findGptEntryByName_after {i : ℕ} {ref : EntryRef} (hi : ref.disk = i) {disk' : GptDisk}
    (hdisk' : disks'[i]? = some disk') {name : List (BitVec 16)} {entry : EfiPartitionEntry}
    (hused : UsedEntry disks ref entry) (htext : entry.text = name) :
    findGptEntryByName disk' name = some (entryOf (rawEntry disks' false ref)) := by
  have hlayout := htracks.layout
  obtain ⟨hused', htext'⟩ := hlayout.usedEntry hused
  have hat : UsedEntry disks' ⟨i, ref.entry⟩ (entryOf (rawEntry disks' false ref)) := by
    rw [← hi]
    exact hused'
  have hsome := findGptEntryByName_isSome hdisk' hat (htext'.trans htext)
  obtain ⟨found, hf⟩ := Option.isSome_iff_exists.mp hsome
  obtain ⟨l, hl, hltext⟩ := findGptEntryByName_eq_some hdisk' hf
  have hsame := hlayout.namesUnique hunique _ _ _ _ hl hused'
    (hltext.trans (htext'.trans htext).symm)
  rw [hf, (usedEntry_iff.mp hl).2.1, hsame]

/-- The boot entries of one disk before and after. -/
theorem bootPair_after {i : ℕ} {disk disk' : GptDisk} (hdisk : disks[i]? = some disk)
    (hdisk' : disks'[i]? = some disk') {entryA entryB : EfiPartitionEntry}
    (hA : findGptEntryByName disk bootA = some entryA)
    (hB : findGptEntryByName disk bootB = some entryB) :
    ∃ entryA' entryB', findGptEntryByName disk' bootA = some entryA' ∧
      findGptEntryByName disk' bootB = some entryB' ∧
      (isActive entryA = isActive entryB ∧ isActive entryA' = isActive entryB' ∨
        isActive entryA = decide (slot = .a) ∧ isActive entryB = decide (slot = .b) ∧
        isActive entryA' = decide (slot = .b) ∧ isActive entryB' = decide (slot = .a)) := by
  obtain ⟨j, husedA, htextA⟩ := findGptEntryByName_eq_some hdisk hA
  obtain ⟨k, husedB, htextB⟩ := findGptEntryByName_eq_some hdisk hB
  have hA' := findGptEntryByName_after hunique htracks rfl hdisk' husedA htextA
  have hB' := findGptEntryByName_after hunique htracks rfl hdisk' husedB htextB
  refine ⟨_, _, hA', hB', ?_⟩
  have hslotPair : SlotPair disks ⟨i, j⟩ ⟨i, k⟩ :=
    ⟨entryA, entryB, _, husedA, husedB, by simp, htextA.trans text_bootA,
      htextB.trans text_bootB⟩
  have hmem := hslotPair.mem_slotARefs
  have hpartner := hslotPair.partner hunique
  obtain ⟨-, rfl, -⟩ := usedEntry_iff.mp husedA
  obtain ⟨-, rfl, -⟩ := usedEntry_iff.mp husedB
  have hcells (ref : EntryRef) : isActive (entryOf (rawEntry disks' false ref)) =
      entryAccess.active (r.state ref) := by
    rw [← htracks.cells]
    rfl
  rw [hcells, hcells]
  obtain ⟨-, ⟨hidle, hea, heb⟩ | ⟨hlive, hea, heb⟩⟩ := run_pair (apart hunique) hrun hmem hpartner
  · left
    rw [hea, heb]
    exact ⟨hidle.1.trans hidle.2.symm, hidle.1.trans hidle.2.symm⟩
  · right
    obtain ⟨hactA, hactB⟩ := pairSlot_eq_some.mp hlive
    rw [hea, heb, entryAccess.active_put, entryAccess.active_put]
    rw [Slot.other_other] at hactA hactB
    refine ⟨hactA, hactB, ?_, ?_⟩
    · cases slot <;> rfl
    · cases slot <;> rfl

omit hunique hrun in
theorem findGptEntryByName_none_after {i : ℕ} {disk disk' : GptDisk}
    (hdisk : disks[i]? = some disk) (hdisk' : disks'[i]? = some disk')
    {partitionName : List (BitVec 16)} (h : findGptEntryByName disk partitionName = none) :
    findGptEntryByName disk' partitionName = none := by
  by_contra hsome
  obtain ⟨entry, he⟩ := Option.ne_none_iff_exists'.mp hsome
  obtain ⟨j, hused, htext⟩ := findGptEntryByName_eq_some hdisk' he
  obtain ⟨hused', htext'⟩ := htracks.layout.symm.usedEntry hused
  have hfound := findGptEntryByName_isSome hdisk hused' (htext'.trans htext)
  rw [h] at hfound
  cases hfound

/-- Detection from the boot pair gives the other slot where it gave one, and fails where it
failed; `m` is the index of the first disk of the suffix. -/
theorem detectActiveSlotFromBoot_after {m : ℕ} {suffix suffix' : List GptDisk}
    (hsuffix : ∀ i, disks[m + i]? = suffix[i]?) (hsuffix' : ∀ i, disks'[m + i]? = suffix'[i]?)
    (hlen : suffix'.length = suffix.length) :
    (∀ s, detectActiveSlotFromBoot suffix = .ok s →
      s = slot ∧ detectActiveSlotFromBoot suffix' = .ok slot.other) ∧
    (∀ e, detectActiveSlotFromBoot suffix = .error e →
      ∃ e', detectActiveSlotFromBoot suffix' = .error e') := by
  induction suffix generalizing m suffix' with
  | nil =>
    rw [List.eq_nil_of_length_eq_zero hlen]
    exact ⟨fun s h => (nomatch h), fun e _ => ⟨.notFound, rfl⟩⟩
  | cons disk suffix ih =>
    obtain ⟨disk', tail', rfl⟩ := List.exists_cons_of_length_eq_add_one hlen
    have hdisk := hsuffix 0
    have hdisk' := hsuffix' 0
    rw [Nat.add_zero, List.getElem?_cons_zero] at hdisk hdisk'
    have hrest := ih (m := m + 1) (fun i => by rw [Nat.add_right_comm]; exact hsuffix (i + 1))
      (fun i => by rw [Nat.add_right_comm]; exact hsuffix' (i + 1))
      (Nat.succ.inj hlen)
    have hskip (h : findGptEntryByName disk bootA = none ∨ findGptEntryByName disk bootB = none) :
        detectActiveSlotFromBoot (disk :: suffix) = detectActiveSlotFromBoot suffix ∧
          detectActiveSlotFromBoot (disk' :: tail') = detectActiveSlotFromBoot tail' := by
      have hafter {name : List (BitVec 16)} (hnone : findGptEntryByName disk name = none) :=
        findGptEntryByName_none_after htracks hdisk hdisk' hnone
      exact ⟨detectActiveSlotFromBoot_skip h, detectActiveSlotFromBoot_skip (h.imp hafter hafter)⟩
    cases hA : findGptEntryByName disk bootA with
    | none =>
      rw [(hskip (Or.inl hA)).1, (hskip (Or.inl hA)).2]
      exact hrest
    | some entryA =>
      cases hB : findGptEntryByName disk bootB with
      | none =>
        rw [(hskip (Or.inr hB)).1, (hskip (Or.inr hB)).2]
        exact hrest
      | some entryB =>
        obtain ⟨entryA', entryB', hA', hB', hcase⟩ :=
          bootPair_after hunique hrun htracks hdisk hdisk' hA hB
        rw [detectActiveSlotFromBoot, detectActiveSlotFromBoot, hA, hB, hA', hB']
        rcases hcase with ⟨hsame, hsame'⟩ | ⟨hactA, hactB, hactA', hactB'⟩
        · dsimp only
          rw [if_pos hsame, if_pos hsame']
          exact ⟨fun s h => (nomatch h), fun e _ => ⟨_, rfl⟩⟩
        · dsimp only
          rw [hactA, hactB, hactA', hactB']
          cases slot with
          | a => exact ⟨fun s h => ⟨(Except.ok.inj h).symm, rfl⟩, fun e h => (nomatch h)⟩
          | b => exact ⟨fun s h => ⟨(Except.ok.inj h).symm, rfl⟩, fun e h => (nomatch h)⟩

theorem detectActiveSlot_after (h : detectActiveSlot disks = .ok slot) :
    detectActiveSlot disks' = .ok slot.other := by
  have hlen : disks'.length = disks.length := by
    simpa only [List.length_map] using congrArg List.length htracks.layout.tables
  have hboot := detectActiveSlotFromBoot_after hunique hrun htracks (m := 0)
    (fun i => congrArg (fun k => disks[k]?) (Nat.zero_add i))
    (fun i => congrArg (fun k => disks'[k]?) (Nat.zero_add i)) hlen
  unfold detectActiveSlot at h ⊢
  cases hb : detectActiveSlotFromBoot disks with
  | ok s => rw [(hboot.1 s hb).2]
  | error e =>
    rw [hb] at h
    obtain ⟨e', he'⟩ := hboot.2 e hb
    rw [he']
    exact detectActiveSlotFromPairs_after hunique hrun htracks h

end Back

/-- A run and a run back leave every primary entry as it was. -/
theorem primary_restored {target : AbSlot} {r r' : Run EntryRef EntryCopies}
    (hrun : run entryAccess (pairing disks) target ⟨copiesAt disks, []⟩ (slotARefs disks) = some r)
    (hback : run entryAccess (pairing disks) target.other ⟨r.state, []⟩ (slotARefs disks) = some r')
    (hcells : ∀ a ∈ slotARefs disks, ∀ b, (pairing disks).partner a = some b → ∀ x ∈ [a, b],
      r'.state x = copiesAt disks x ∨ r'.state x = entryAccess.put (copiesAt disks x)
        (entryAccess.kind (copiesAt disks x)) (entryAccess.active (copiesAt disks x)))
    (ref : EntryRef) : (r'.state ref).primary = rawEntry disks false ref := by
  have hpair {a b : EntryRef} (ha : a ∈ slotARefs disks) (hb : (pairing disks).partner a = some b)
      {x : EntryRef} (hx : x ∈ [a, b]) (hvalid : ValidRef disks x) :
      (r'.state x).primary = rawEntry disks false x := by
    rcases hcells a ha b hb x hx with hsame | hput
    · rw [hsame]
      rfl
    · rw [hput]
      apply rewriteRaw_self
      obtain ⟨disk, hdisk, hj⟩ := hvalid
      change entryCodec.size ≤ (rawEntry disks false x).length
      rw [rawEntry, hdisk]
      have hfit := disk.length_entries false
      rw [disk.entryArraySize_eq_mul] at hfit
      rw [length_slice_of_le]
      · exact disk.entrySize_le
      · rw [hfit]
        exact window_le hj le_rfl
  have hkeep (hnot : ref ∉ slotARefs disks)
      (hno : ∀ a ∈ slotARefs disks, (pairing disks).partner a ≠ some ref) :
      r'.state ref = copiesAt disks ref :=
    (run_of_not_mem hback hnot hno).trans (run_of_not_mem hrun hnot hno)
  by_cases hmem : ref ∈ slotARefs disks
  · cases hp : (pairing disks).partner ref with
    | some b => exact hpair hmem hp List.mem_cons_self (mem_slotARefs.mp hmem).1
    | none =>
      rw [run_of_partner_none hback (sided disks) hmem hp]
      change (r.state ref).primary = _
      rw [run_of_partner_none hrun (sided disks) hmem hp]
      rfl
  · by_cases hpartner : ∃ a ∈ slotARefs disks, (pairing disks).partner a = some ref
    · obtain ⟨a, ha, hp⟩ := hpartner
      exact hpair ha hp (by simp) (isPair_of_partner hp).validB
    · rw [hkeep hmem (fun a ha hp => hpartner ⟨a, ha, hp⟩)]
      rfl

/-- Arrays with the same entries are equal. -/
theorem primaryEntries_eq (htables : SameTables disks disks')
    (h : ∀ ref, rawEntry disks' false ref = rawEntry disks false ref) :
    disks'.map (·.primaryEntries) = disks.map (·.primaryEntries) := by
  apply List.ext_getElem?
  intro i
  have hat := htables.getElem? i
  rw [List.getElem?_map, List.getElem?_map]
  cases hd : disks[i]? with
  | none =>
    rw [hd] at hat
    rw [Option.map_eq_none_iff.mp hat]
  | some disk =>
    rw [hd] at hat
    obtain ⟨disk', hd', hsame⟩ := Option.map_eq_some_iff.mp hat
    rw [hd', Option.map_some, Option.map_some]
    obtain ⟨hsize, hcount⟩ := entrySize_of_asLoaded hsame
    congr 1
    have hlen := disk.length_entries false
    have hlen' := disk'.length_entries false
    rw [GptDisk.entryArraySize_eq_mul] at hlen hlen'
    rw [hsize, hcount] at hlen'
    refine eq_of_slices hlen' hlen (fun j hj => ?_)
    have hj' := h ⟨i, j⟩
    simp only [rawEntry, hd, hd', hsize] at hj'
    exact hj'

/-- Detection follows a switch, and a switch back undoes it on the primary tables. -/
theorem detect_switch_back {n : ℕ} (hunique : NamesUnique disks)
    (hdetect : detectActiveSlot disks = .ok slot)
    (hswitch : switchAllGptPairs disks slot slot.other 0 = .ok (disks', n)) :
    detectActiveSlot disks' = .ok slot.other ∧
      ∃ disks'', switchAllGptPairs disks' slot.other slot 0 = .ok (disks'', n) ∧
        disks''.map (·.primaryEntries) = disks.map (·.primaryEntries) := by
  have hother : switchAllGptPairs disks slot.other.other slot.other 0 = .ok (disks', n) := by
    rwa [Slot.other_other]
  obtain ⟨r, hrun, htracks⟩ := switchAllGptPairs_tracks hother
  refine ⟨detectActiveSlot_after hunique hrun htracks hdetect, ?_⟩
  obtain ⟨r', hback, hlog, hcells⟩ := run_back (apart hunique) hrun []
  rw [Slot.other_other] at hback
  have hlayout := htracks.layout
  have hsim := switchAllGptPairs_simulates disks' slot 0
  rw [hlayout.pairing_eq, hlayout.slotARefs_eq, htracks.cells, hback] at hsim
  obtain ⟨⟨disks'', n''⟩, hok, htracks'⟩ := hsim
  have hcount : n'' = n := by
    have h1 := htracks.count
    have h2 := htracks'.count
    rw [hlog, ← run_log (apart hunique) hrun] at h2
    exact h2.trans h1.symm
  subst hcount
  refine ⟨disks'', hok, primaryEntries_eq ?_ ?_⟩
  · exact htracks'.layout.tables.trans hlayout.tables
  · intro ref
    have hback' := hback
    rw [← Slot.other_other slot] at hback'
    have hprimary := primary_restored hrun hback' hcells ref
    rw [← htracks'.cells] at hprimary
    exact hprimary

theorem detect_switch_back_xbl : detectActiveSlot [xblSwitched] = .ok .b ∧
    ∃ disks, switchAllGptPairs [xblSwitched] .b .a 0 = .ok (disks, 1) ∧
      disks.map (·.primaryEntries) = [xblDisk.primaryEntries] :=
  detect_switch_back namesUnique_xbl detectActiveSlot_xbl switchAllGptPairs_xbl

end ProjectMu
