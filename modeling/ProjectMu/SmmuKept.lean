import ProjectMu.SmmuMatch

/-!
# The streams that are to be kept

Every kept group keeps its registers. Its context bank is left alone if it is tracked, and
only 16 banks are: a bank that a kept group names after 16 other banks have been named is
freed like any other one.
-/

namespace ProjectMu

open BoundedTable

theorem StreamGroup.bank_le (group : StreamGroup) : group.bank.toNat ≤ 255 := by
  unfold StreamGroup.bank
  rw [BitVec.toNat_and]
  exact Nat.and_le_right

theorem StreamGroup.detach_of_kept {group : StreamGroup}
    {skipStreams : Option (List (BitVec 16))} (h : group.kept skipStreams = true) :
    group.detach skipStreams = group := by
  obtain ⟨-, hskip⟩ := Bool.and_eq_true_iff.mp h
  unfold StreamGroup.detach
  rw [hskip, Bool.not_true, Bool.and_false]
  rfl

/-- A bank that freeing does not change. -/
def ContextBank.AtRest (bank : ContextBank) : Prop :=
  bank.Accepted ∧ bank.ttbr0 = 0 ∧ bank.ttbr1 = 0 ∧ bank.tcr = 0 ∧ bank.fsr = 0

theorem ContextBank.accepted_of_cbar {bank : ContextBank} (h : bank.cbar = bypassCbar) :
    bank.Accepted := by
  unfold ContextBank.Accepted
  rw [h]
  decide

theorem ContextBank.free_eq_self_iff {bank : ContextBank} : bank.free = bank ↔ bank.AtRest := by
  constructor
  · intro h
    have hcbar := congrArg ContextBank.cbar h
    have haccepted : bank.Accepted := by
      by_contra hnot
      apply hnot
      apply ContextBank.accepted_of_cbar
      rw [← hcbar]
      exact if_neg hnot
    exact ⟨haccepted, (congrArg ContextBank.ttbr0 h).symm, (congrArg ContextBank.ttbr1 h).symm,
      (congrArg ContextBank.tcr h).symm, (congrArg ContextBank.fsr h).symm⟩
  · obtain ⟨cbar, ttbr0, ttbr1, tcr, fsr⟩ := bank
    rintro ⟨haccepted, rfl, rfl, rfl, rfl⟩
    unfold ContextBank.free
    rw [if_pos haccepted]

variable {smmu : ArmSmmuV2Device} {skipStreams : Option (List (BitVec 16))} {memory : Memory}

theorem groupAt_armSmmuDetachAll_of_toKeep {i : BitVec 32}
    (hi : i.toNat < (numSmrg smmu memory).toNat)
    (hkeep : (groupAt smmu memory i).ToKeep skipStreams) :
    groupAt smmu (armSmmuDetachAll smmu skipStreams memory) i = groupAt smmu memory i := by
  rw [groupAt_armSmmuDetachAll_of_lt hi]
  exact StreamGroup.detach_of_kept (StreamGroup.kept_iff.mpr hkeep)

/-- The bank of a kept group survives in three cases: the device does not have it, few other
banks are named before it, or there is nothing to free. -/
theorem bankAt_armSmmuDetachAll_of_mem {bank : BitVec 32} (hle : bank.toNat ≤ 255)
    (hmem : bank ∈ keptBanks smmu skipStreams memory) :
    bankAt smmu (armSmmuDetachAll smmu skipStreams memory) bank = bankAt smmu memory bank ↔
      smmu.numContextBanks.toNat ≤ bank.toNat ∨
      ((keptBanks smmu skipStreams memory).takeWhile (· ≠ bank)).toFinset.card < 16 ∨
      (bankAt smmu memory bank).AtRest := by
  have htracked : bank ∈ trackAll 16 (keptBanks smmu skipStreams memory) ↔
      ((keptBanks smmu skipStreams memory).takeWhile (· ≠ bank)).toFinset.card < 16 := by
    rw [mem_trackAll_iff, and_iff_right hmem]
  rw [bankAt_armSmmuDetachAll hle, ← htracked, ← ContextBank.free_eq_self_iff]
  by_cases hfreed : bank.toNat < smmu.numContextBanks.toNat ∧
      bank ∉ trackAll 16 (keptBanks smmu skipStreams memory)
  · rw [if_pos hfreed]
    have hlt := not_le.mpr hfreed.1
    simp only [hlt, hfreed.2, false_or]
  · rw [if_neg hfreed]
    rw [not_and_or, not_lt, not_not] at hfreed
    constructor
    · intro _
      exact hfreed.imp_right Or.inl
    · intro _
      rfl

/-- Every group that has to be kept keeps its registers and those of its context bank. -/
def KeepsStreams (smmu : ArmSmmuV2Device) (skipStreams : Option (List (BitVec 16)))
    (memory : Memory) : Prop :=
  ∀ i : BitVec 32, i.toNat < (numSmrg smmu memory).toNat →
    (groupAt smmu memory i).ToKeep skipStreams →
    groupAt smmu (armSmmuDetachAll smmu skipStreams memory) i = groupAt smmu memory i ∧
    bankAt smmu (armSmmuDetachAll smmu skipStreams memory) (groupAt smmu memory i).bank =
      bankAt smmu memory (groupAt smmu memory i).bank

theorem keepsStreams_iff : KeepsStreams smmu skipStreams memory ↔
    ∀ i : BitVec 32, i.toNat < (numSmrg smmu memory).toNat →
      (groupAt smmu memory i).ToKeep skipStreams →
      let bank := (groupAt smmu memory i).bank
      smmu.numContextBanks.toNat ≤ bank.toNat ∨
      ((keptBanks smmu skipStreams memory).takeWhile (· ≠ bank)).toFinset.card < 16 ∨
      (bankAt smmu memory bank).AtRest := by
  unfold KeepsStreams
  apply forall_congr'
  intro i
  apply imp_congr_right
  intro hi
  apply imp_congr_right
  intro hkeep
  have hle := (groupAt smmu memory i).bank_le
  have hmem : (groupAt smmu memory i).bank ∈ keptBanks smmu skipStreams memory :=
    mem_keptBanks.mpr ⟨i, hi, StreamGroup.kept_iff.mpr hkeep, rfl⟩
  rw [and_iff_right (groupAt_armSmmuDetachAll_of_toKeep hi hkeep)]
  exact bankAt_armSmmuDetachAll_of_mem hle hmem

/-- ID1 of a device with 17 context banks and 32 pages of 4 KiB. -/
def wideId1 : BitVec 32 := 0x40000011

def wideSmmu : ArmSmmuV2Device := smmuDevice 0 wideId1

/-- 17 valid groups, each with a stream and a bank of its own; the last bank is in use. -/
def wideMemory : Memory := fun address =>
  if address = armSmmuGr0Id0 then 17
  else if address = armSmmuGr0Id1 then wideId1
  else if address = cbAddress wideSmmu 16 armSmmuCbTcr then 1
  else if 0x800 ≤ address.toNat ∧ address.toNat < 0x844 then
    smrValid ||| BitVec.ofNat 32 ((address.toNat - 0x800) / 4)
  else if 0xC00 ≤ address.toNat ∧ address.toNat < 0xC44 then
    BitVec.ofNat 32 ((address.toNat - 0xC00) / 4)
  else 0

def wideStreams : List (BitVec 16) := (List.range 17).map (BitVec.ofNat 16)

theorem keptBanks_wide :
    keptBanks wideSmmu (some wideStreams) wideMemory = (List.range 17).map (BitVec.ofNat 32) := by
  decide +kernel

/-- The bank of the last of 17 kept groups is freed. -/
theorem not_keepsStreams_wide : ¬ KeepsStreams wideSmmu (some wideStreams) wideMemory := by
  have hi : (16 : BitVec 32).toNat < (numSmrg wideSmmu wideMemory).toNat := by decide +kernel
  have hstream : 16 ∈ wideStreams := by decide
  have hmatch : (groupAt wideSmmu wideMemory 16).Matches 16 := by decide +kernel
  have hvalid : (groupAt wideSmmu wideMemory 16).valid = true := by decide +kernel
  have hbank : (groupAt wideSmmu wideMemory 16).bank = 16 := by decide +kernel
  have htcr : (bankAt wideSmmu wideMemory 16).tcr = 1 := by decide +kernel
  have hmem : 16 ∈ keptBanks wideSmmu (some wideStreams) wideMemory := by
    rw [keptBanks_wide]
    decide +kernel
  unfold KeepsStreams
  intro h
  have hkept := (h 16 hi ⟨hvalid, wideStreams, rfl, 16, hstream, hmatch⟩).2
  rw [hbank, bankAt_armSmmuDetachAll_of_mem (by decide) hmem, keptBanks_wide] at hkept
  rcases hkept with habsent | hfew | hrest
  · exact absurd habsent (by decide +kernel)
  · exact absurd hfew (by decide +kernel)
  · exact absurd (htcr.symm.trans hrest.2.2.2.1) (by decide)

end ProjectMu
