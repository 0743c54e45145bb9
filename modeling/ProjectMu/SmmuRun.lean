import ProjectMu.SmmuEffect

/-!
# The two loops of a detach

The first loop acts on every stream group by itself and tracks the banks of the kept
groups; the second one acts on every context bank by itself. Neither loop touches what
the other one reads, apart from the tracked banks.
-/

namespace ProjectMu

open BoundedTable

section Groups

variable {smmu : ArmSmmuV2Device} {skipStreams : Option (List (BitVec 16))} {memory : Memory}

/-- The memory after the first loop. -/
def detachGroups (smmu : ArmSmmuV2Device) (skipStreams : Option (List (BitVec 16)))
    (memory : Memory) : Memory :=
  (indices (numSmrg smmu memory)).foldl (detachGroupAt smmu skipStreams) memory

/-- The banks of the kept groups, in the order of the first loop. -/
def keptBanks (smmu : ArmSmmuV2Device) (skipStreams : Option (List (BitVec 16)))
    (memory : Memory) : List (BitVec 32) :=
  (((indices (numSmrg smmu memory)).map (groupAt smmu memory)).filter
    (StreamGroup.kept skipStreams)).map StreamGroup.bank

theorem numSmrg_le : (numSmrg smmu memory).toNat ≤ 255 := by
  unfold numSmrg
  rw [BitVec.toNat_and]
  exact Nat.and_le_right

theorem index_le_of_mem_numSmrg {i : BitVec 32} (h : i ∈ indices (numSmrg smmu memory)) :
    i.toNat ≤ 255 := by
  have hlt := mem_indices.mp h
  have hle := @numSmrg_le smmu memory
  omega

theorem mem_keptBanks {bank : BitVec 32} : bank ∈ keptBanks smmu skipStreams memory ↔
    ∃ i : BitVec 32, i.toNat < (numSmrg smmu memory).toNat ∧
      (groupAt smmu memory i).kept skipStreams = true ∧ (groupAt smmu memory i).bank = bank := by
  unfold keptBanks
  simp only [List.mem_map, List.mem_filter]
  constructor
  · rintro ⟨group, ⟨⟨i, hi, rfl⟩, hkept⟩, hbank⟩
    exact ⟨i, mem_indices.mp hi, hkept, hbank⟩
  · rintro ⟨i, hi, hkept, hbank⟩
    exact ⟨groupAt smmu memory i, ⟨⟨i, mem_indices.mpr hi, rfl⟩, hkept⟩, hbank⟩

theorem foldl_trackGroup (groups : List StreamGroup) (contextBank : List (BitVec 32)) :
    groups.foldl (trackGroup skipStreams) contextBank =
      ((groups.filter (StreamGroup.kept skipStreams)).map StreamGroup.bank).foldl (track 16)
        contextBank := by
  induction groups generalizing contextBank with
  | nil => rfl
  | cons group groups ih =>
    rw [List.foldl_cons, ih, trackGroup, List.filter_cons]
    split_ifs <;> rfl

/-- The first loop, with the banks that it tracks. -/
theorem foldl_detachStreamGroup :
    (indices (numSmrg smmu memory)).foldl (detachStreamGroup smmu skipStreams) (memory, []) =
      (detachGroups smmu skipStreams memory, trackAll 16 (keptBanks smmu skipStreams memory)) := by
  have hlocal := @local_detachGroupAt smmu skipStreams
  have hcollect := hlocal.foldl_collect
    (fun contextBank _ group => trackGroup skipStreams contextBank group)
    (nodup_indices (numSmrg smmu memory)) (fun i hi => index_le_of_mem_numSmrg hi) memory []
  have hstep : detachStreamGroup smmu skipStreams = fun state i =>
      (detachGroupAt smmu skipStreams state.1 i,
        trackGroup skipStreams state.2 (groupAt smmu state.1 i)) := by
    funext state i
    exact detachStreamGroup_eq state i
  rw [hstep, hcollect]
  unfold detachGroups trackAll keptBanks
  rw [← foldl_trackGroup, List.foldl_map]

theorem groupAt_detachGroups {i : BitVec 32} (hi : i.toNat ≤ 255) :
    groupAt smmu (detachGroups smmu skipStreams memory) i =
      if i.toNat < (numSmrg smmu memory).toNat then (groupAt smmu memory i).detach skipStreams
      else groupAt smmu memory i := by
  have hlocal := @local_detachGroupAt smmu skipStreams
  have hrun := hlocal.foldl (nodup_indices (numSmrg smmu memory))
    (fun i hi => index_le_of_mem_numSmrg hi) memory hi
  unfold detachGroups
  rw [hrun]
  exact if_congr mem_indices rfl rfl

/-- The first loop writes no register but those of the groups. -/
theorem registerAt_detachGroups {r : Register} (hr : r.Valid) (hsmr : ∀ i, r ≠ .smr i)
    (hs2cr : ∀ i, r ≠ .s2cr i) :
    registerAt smmu (detachGroups smmu skipStreams memory) r = registerAt smmu memory r := by
  unfold detachGroups
  apply foldl_frame (fun memory => registerAt smmu memory r)
  intro memory' i hi
  exact registerAt_detachGroupAt (index_le_of_mem_numSmrg hi) hr (hsmr i) (hs2cr i) memory'

theorem bankAt_detachGroups {bank : BitVec 32} (hbank : bank.toNat ≤ 255) :
    bankAt smmu (detachGroups smmu skipStreams memory) bank = bankAt smmu memory bank := by
  have hcb (word : CbWord) : registerAt smmu (detachGroups smmu skipStreams memory) (.cb bank word) =
      registerAt smmu memory (.cb bank word) :=
    registerAt_detachGroups (valid_cb.mpr hbank) (fun _ => nofun) (fun _ => nofun)
  have hcbar : registerAt smmu (detachGroups smmu skipStreams memory) (.cbar bank) =
      registerAt smmu memory (.cbar bank) :=
    registerAt_detachGroups (valid_cbar.mpr hbank) (fun _ => nofun) (fun _ => nofun)
  unfold bankAt
  simp only [hcb, hcbar]

end Groups

section Banks

variable {smmu : ArmSmmuV2Device} {contextBank : List (BitVec 32)}

theorem bank_le_of_mem {bank : BitVec 32} (h : bank ∈ indices smmu.numContextBanks) :
    bank.toNat ≤ 255 := by
  have hlt := mem_indices.mp h
  have hle := smmu.numContextBanks_le
  omega

theorem freeUntrackedBank_eq (memory : Memory) (i : BitVec 32) :
    freeUntrackedBank smmu contextBank memory i =
      if i ∈ contextBank then memory else armSmmuFreeContextBank smmu i memory := by
  have hany : contextBank.any (· == i) = true ↔ i ∈ contextBank := by simp
  unfold freeUntrackedBank
  exact if_congr hany rfl rfl

theorem local_freeUntrackedBank : Local (bankAt smmu) (freeUntrackedBank smmu contextBank)
    (fun i bank => if i ∈ contextBank then bank else bank.free)
    {i | i ∈ indices smmu.numContextBanks} := by
  intro memory i hi j hj
  have hlt := mem_indices.mp hi
  rw [freeUntrackedBank_eq]
  split_ifs with htracked hji hji
  · rw [hji]
    exact (if_pos htracked).symm
  · rfl
  · rw [hji, bankAt_armSmmuFreeContextBank hlt]
    exact (if_neg htracked).symm
  · exact bankAt_armSmmuFreeContextBank_of_ne hlt (bank_le_of_mem hj) hji memory

/-- The memory after the second loop. -/
def freeBanks (smmu : ArmSmmuV2Device) (contextBank : List (BitVec 32)) (memory : Memory) :
    Memory :=
  (indices smmu.numContextBanks).foldl (freeUntrackedBank smmu contextBank) memory

theorem bankAt_freeBanks {bank : BitVec 32} (hbank : bank.toNat ≤ 255) (memory : Memory) :
    bankAt smmu (freeBanks smmu contextBank memory) bank =
      if bank.toNat < smmu.numContextBanks.toNat ∧ bank ∉ contextBank then
        (bankAt smmu memory bank).free
      else bankAt smmu memory bank := by
  unfold freeBanks
  by_cases hlt : bank.toNat < smmu.numContextBanks.toNat
  · have hmem := mem_indices.mpr hlt
    have hlocal := @local_freeUntrackedBank smmu contextBank
    rw [hlocal.foldl (nodup_indices _) (fun i hi => hi) memory hmem, if_pos hmem]
    by_cases htracked : bank ∈ contextBank
    · rw [if_pos htracked, if_neg (fun h => h.2 htracked)]
    · rw [if_neg htracked, if_pos ⟨hlt, htracked⟩]
  · -- A bank that the device does not have is not visited.
    rw [if_neg (fun h => hlt h.1)]
    apply foldl_frame (fun memory => bankAt smmu memory bank)
    intro memory' i hi
    have hi := mem_indices.mp hi
    have hne : bank ≠ i := fun he => hlt (he ▸ hi)
    rw [freeUntrackedBank_eq]
    split_ifs
    · rfl
    · exact bankAt_armSmmuFreeContextBank_of_ne hi hbank hne memory'

theorem groupAt_freeBanks {i : BitVec 32} (hi : i.toNat ≤ 255) (memory : Memory) :
    groupAt smmu (freeBanks smmu contextBank memory) i = groupAt smmu memory i := by
  unfold freeBanks
  apply foldl_frame (fun memory => groupAt smmu memory i)
  intro memory' bank hbank
  have hbank := mem_indices.mp hbank
  rw [freeUntrackedBank_eq]
  split_ifs
  · rfl
  · unfold groupAt
    have hsmr := registerAt_armSmmuFreeContextBank hbank (valid_smr.mpr hi) nofun memory'
    have hs2cr := registerAt_armSmmuFreeContextBank hbank (valid_s2cr.mpr hi) nofun memory'
    rw [hsmr, hs2cr]
    rfl

end Banks

section Detach

variable {smmu : ArmSmmuV2Device} {skipStreams : Option (List (BitVec 16))} {memory : Memory}

theorem armSmmuDetachAll_eq : armSmmuDetachAll smmu skipStreams memory =
    freeBanks smmu (trackAll 16 (keptBanks smmu skipStreams memory))
      (detachGroups smmu skipStreams memory) := by
  unfold armSmmuDetachAll
  rw [foldl_detachStreamGroup]
  rfl

/-- A detach acts on every stream group by itself. -/
theorem groupAt_armSmmuDetachAll {i : BitVec 32} (hi : i.toNat ≤ 255) :
    groupAt smmu (armSmmuDetachAll smmu skipStreams memory) i =
      if i.toNat < (numSmrg smmu memory).toNat then (groupAt smmu memory i).detach skipStreams
      else groupAt smmu memory i := by
  rw [armSmmuDetachAll_eq, groupAt_freeBanks hi, groupAt_detachGroups hi]

theorem groupAt_armSmmuDetachAll_of_lt {i : BitVec 32}
    (hi : i.toNat < (numSmrg smmu memory).toNat) :
    groupAt smmu (armSmmuDetachAll smmu skipStreams memory) i =
      (groupAt smmu memory i).detach skipStreams := by
  have hle := @numSmrg_le smmu memory
  rw [groupAt_armSmmuDetachAll (by omega), if_pos hi]

/-- A detach frees the banks of the device that are not tracked. -/
theorem bankAt_armSmmuDetachAll {bank : BitVec 32} (hbank : bank.toNat ≤ 255) :
    bankAt smmu (armSmmuDetachAll smmu skipStreams memory) bank =
      if bank.toNat < smmu.numContextBanks.toNat ∧
          bank ∉ trackAll 16 (keptBanks smmu skipStreams memory) then
        (bankAt smmu memory bank).free
      else bankAt smmu memory bank := by
  rw [armSmmuDetachAll_eq, bankAt_freeBanks hbank, bankAt_detachGroups hbank]

end Detach

end ProjectMu
