import ProjectMu.SmmuMatch

/-!
# The streams that are detached

A valid group that matches no skip stream loses its valid bit and faults, with its context
bank index kept; an invalid group is not touched. A context bank that no kept group names
is never tracked, so that the second loop clears its translation registers.
-/

namespace ProjectMu

open BoundedTable

namespace StreamGroup

variable {group : StreamGroup} {skipStreams : Option (List (BitVec 16))}

def s2crType (group : StreamGroup) : BitVec 32 := (group.s2cr >>> s2crTypeShift) &&& s2crTypeMask

/-- The S2CR of a detached group. -/
def faultS2cr (bank : BitVec 32) : BitVec 32 :=
  ((s2crTypeFault &&& s2crTypeMask) <<< s2crTypeShift) |||
    ((bank &&& s2crCbndxMask) <<< s2crCbndxShift)

/-- The group has lost its valid bit and faults, and nothing else about it has changed. -/
structure DetachedFrom (after before : StreamGroup) : Prop where
  invalid : after.valid = false
  sameBits : after.smr.extractLsb' 0 31 = before.smr.extractLsb' 0 31
  faults : after.s2crType = s2crTypeFault
  sameBank : after.bank = before.bank

theorem valid_clear (smr s2cr : BitVec 32) : valid ⟨smr &&& ~~~smrValid, s2cr⟩ = false := by
  rw [← Bool.not_eq_true, valid_iff_getLsbD, BitVec.getLsbD_and, BitVec.getLsbD_not]
  change ¬ (smr.getLsbD 31 && false) = true
  rw [Bool.and_false]
  exact Bool.false_ne_true

theorem extractLsb'_clear (smr : BitVec 32) :
    (smr &&& ~~~smrValid).extractLsb' 0 31 = smr.extractLsb' 0 31 := by
  have hones : (~~~smrValid).extractLsb' 0 31 = BitVec.allOnes 31 := by decide
  rw [BitVec.extractLsb'_and, hones, BitVec.and_allOnes]

/-- The type and the bank index of an S2CR lie in different bits. -/
theorem faultS2cr_eq (bank : BitVec 32) :
    faultS2cr bank = 0x20000 ||| (bank &&& s2crCbndxMask) := by
  have htype : (s2crTypeFault &&& s2crTypeMask) <<< s2crTypeShift = 0x20000 := by decide
  unfold faultS2cr
  rw [htype, s2crCbndxShift, BitVec.shiftLeft_zero]

theorem s2crType_fault (smr bank : BitVec 32) : s2crType ⟨smr, faultS2cr bank⟩ = s2crTypeFault := by
  have hindex : (bank &&& s2crCbndxMask) >>> s2crTypeShift = 0 := by
    have hmask : s2crCbndxMask >>> s2crTypeShift = 0 := by decide
    rw [BitVec.ushiftRight_and_distrib, hmask]
    exact BitVec.and_zero
  unfold s2crType
  rw [faultS2cr_eq, BitVec.ushiftRight_or_distrib, hindex]
  decide

theorem bank_fault (smr : BitVec 32) (group : StreamGroup) :
    bank ⟨smr, faultS2cr group.bank⟩ = group.bank := by
  have htype : (0x20000 : BitVec 32) &&& s2crCbndxMask = 0 := by decide
  have hindex : group.bank &&& s2crCbndxMask = group.bank := by
    unfold bank
    rw [BitVec.and_assoc, BitVec.and_self]
  change (faultS2cr group.bank >>> 0) &&& s2crCbndxMask = group.bank
  rw [BitVec.ushiftRight_zero, faultS2cr_eq, hindex, BitVec.and_or_distrib_right, htype, hindex]
  exact BitVec.zero_or

theorem detachedFrom_detach (hvalid : group.valid = true)
    (hmatch : ∀ streams ∈ skipStreams, ∀ stream ∈ streams, ¬ group.Matches stream) :
    (group.detach skipStreams).DetachedFrom group := by
  have hskip : group.skipped skipStreams = false := by
    rw [← Bool.not_eq_true]
    intro hskip
    have hkept : group.kept skipStreams = true := Bool.and_eq_true_iff.mpr ⟨hvalid, hskip⟩
    obtain ⟨-, streams, hstreams, stream, hstream, hmatches⟩ := kept_iff.mp hkept
    exact hmatch streams hstreams stream hstream hmatches
  rw [detach_of_kept_false hvalid hskip]
  exact ⟨valid_clear _ _, extractLsb'_clear _, s2crType_fault _ _, bank_fault _ _⟩

theorem detach_of_invalid (h : group.valid = false) : group.detach skipStreams = group := by
  unfold detach
  rw [h, Bool.false_and]
  rfl

end StreamGroup

variable {smmu : ArmSmmuV2Device} {skipStreams : Option (List (BitVec 16))} {memory : Memory}

theorem bankAt_armSmmuDetachAll_of_not_named {bank : BitVec 32}
    (hbank : bank.toNat < smmu.numContextBanks.toNat)
    (hnamed : bank ∉ keptBanks smmu skipStreams memory) :
    bankAt smmu (armSmmuDetachAll smmu skipStreams memory) bank = (bankAt smmu memory bank).free := by
  have hnum := smmu.numContextBanks_le
  have htracked : bank ∉ trackAll 16 (keptBanks smmu skipStreams memory) :=
    fun h => hnamed (mem_of_mem_trackAll h)
  rw [bankAt_armSmmuDetachAll (by omega), if_pos ⟨hbank, htracked⟩]

/-- A detach invalidates the groups that match no skip stream, and clears the banks that no
kept group names. -/
theorem armSmmuDetachAll_detaches :
    (∀ i : BitVec 32, i.toNat < (numSmrg smmu memory).toNat →
      (groupAt smmu memory i).valid = true →
      (∀ streams ∈ skipStreams, ∀ stream ∈ streams, ¬ (groupAt smmu memory i).Matches stream) →
      (groupAt smmu (armSmmuDetachAll smmu skipStreams memory) i).DetachedFrom
        (groupAt smmu memory i)) ∧
    (∀ i : BitVec 32, i.toNat < (numSmrg smmu memory).toNat →
      (groupAt smmu memory i).valid = false →
      groupAt smmu (armSmmuDetachAll smmu skipStreams memory) i = groupAt smmu memory i) ∧
    ∀ bank : BitVec 32, bank.toNat < smmu.numContextBanks.toNat →
      (∀ i : BitVec 32, i.toNat < (numSmrg smmu memory).toNat →
        (groupAt smmu memory i).ToKeep skipStreams → (groupAt smmu memory i).bank ≠ bank) →
      let after := bankAt smmu (armSmmuDetachAll smmu skipStreams memory) bank
      after.ttbr0 = 0 ∧ after.ttbr1 = 0 ∧ after.tcr = 0 := by
  refine ⟨?_, ?_, ?_⟩
  · intro i hi hvalid hmatch
    rw [groupAt_armSmmuDetachAll_of_lt hi]
    exact StreamGroup.detachedFrom_detach hvalid hmatch
  · intro i hi hinvalid
    rw [groupAt_armSmmuDetachAll_of_lt hi]
    exact StreamGroup.detach_of_invalid hinvalid
  · intro bank hbank hnamed
    have hnot : bank ∉ keptBanks smmu skipStreams memory := by
      intro hmem
      obtain ⟨i, hi, hkept, hname⟩ := mem_keptBanks.mp hmem
      exact hnamed i hi (StreamGroup.kept_iff.mp hkept) hname
    have hfree := bankAt_armSmmuDetachAll_of_not_named hbank hnot
    dsimp only
    rw [hfree]
    exact ⟨rfl, rfl, rfl⟩

end ProjectMu
