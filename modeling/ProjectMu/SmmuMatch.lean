import ProjectMu.SmmuRun

/-!
# Stream matching

An SMR has a 15-bit stream ID and a 15-bit mask. The code extracts both with the 16-bit
ID mask, so that the valid bit of the register ends up in the top bit of the mask.
`test_iff_matches` shows that for a valid SMR the test of the code is the 15-bit match all
the same: the top bit of the mask takes the top bit of both IDs out of the comparison.
-/

namespace ProjectMu

namespace StreamGroup

variable {group : StreamGroup} {stream : BitVec 16} {skipStreams : Option (List (BitVec 16))}

/-- The ID field of the SMR. -/
def streamId (group : StreamGroup) : BitVec 15 := group.smr.extractLsb' 0 15

/-- The mask field of the SMR. -/
def streamMask (group : StreamGroup) : BitVec 15 := group.smr.extractLsb' 16 15

/-- The IDs agree on all bits that are not masked. -/
def Matches (group : StreamGroup) (stream : BitVec 16) : Prop :=
  stream.extractLsb' 0 15 &&& ~~~group.streamMask = group.streamId &&& ~~~group.streamMask

instance : Decidable (group.Matches stream) := inferInstanceAs (Decidable (_ = _))

/-- Whether a group has to be kept: it is valid and matches one of the skip streams. -/
def ToKeep (skipStreams : Option (List (BitVec 16))) (group : StreamGroup) : Prop :=
  group.valid = true ∧ ∃ streams ∈ skipStreams, ∃ stream ∈ streams, group.Matches stream

/-- The mask as the code extracts it. -/
def smrMask (group : StreamGroup) : BitVec 32 := (group.smr >>> smrMaskShift) &&& smrIdMask

/-- The ID as the code extracts it. -/
def smrId (group : StreamGroup) : BitVec 32 := (group.smr >>> smrIdShift) &&& smrIdMask

theorem getLsbD_smrIdMask (k : ℕ) : smrIdMask.getLsbD k = decide (k < 16) := by
  have htest := Nat.testBit_two_pow_sub_one 16 k
  change (BitVec.ofNat 32 (2 ^ 16 - 1)).getLsbD k = _
  rw [BitVec.getLsbD_ofNat, htest]
  by_cases hk : k < 16
  · have hk' : k < 32 := by omega
    simp [hk, hk']
  · simp [hk]

theorem valid_iff_getLsbD : group.valid = true ↔ group.smr.getLsbD 31 = true := by
  have hand := BitVec.and_twoPow group.smr 31
  rw [valid_iff]
  change ¬ group.smr &&& BitVec.twoPow 32 31 = 0 ↔ _
  rw [hand]
  cases group.smr.getLsbD 31 <;> decide

theorem getLsbD_smrMask {k : ℕ} (hk : k < 16) :
    group.smrMask.getLsbD k = group.smr.getLsbD (16 + k) := by
  unfold smrMask
  rw [BitVec.getLsbD_and, getLsbD_smrIdMask, BitVec.getLsbD_ushiftRight, decide_eq_true hk,
    Bool.and_true]
  rfl

theorem getLsbD_smrId (k : ℕ) :
    group.smrId.getLsbD k = (group.smr.getLsbD k && decide (k < 16)) := by
  unfold smrId
  rw [BitVec.getLsbD_and, getLsbD_smrIdMask, BitVec.getLsbD_ushiftRight]
  change (group.smr.getLsbD (0 + k) && _) = _
  rw [Nat.zero_add]

/-- Two words agree under a mask if and only if they agree on its clear bits. -/
theorem and_not_eq_iff {w : ℕ} {x y mask : BitVec w} : x &&& ~~~mask = y &&& ~~~mask ↔
    ∀ k < w, mask.getLsbD k = false → x.getLsbD k = y.getLsbD k := by
  constructor
  · intro h k hk hmask
    have hbit := congrArg (fun z => BitVec.getLsbD z k) h
    rwa [BitVec.getLsbD_and, BitVec.getLsbD_and, BitVec.getLsbD_not, hmask, decide_eq_true hk,
      Bool.not_false, Bool.and_true, Bool.and_true, Bool.and_true] at hbit
  · intro h
    apply BitVec.eq_of_getLsbD_eq
    intro k hk
    rw [BitVec.getLsbD_and, BitVec.getLsbD_and, BitVec.getLsbD_not]
    cases hmask : mask.getLsbD k with
    | false => rw [h k hk hmask]
    | true => simp

theorem matches_iff : group.Matches stream ↔
    ∀ k < 15, group.smr.getLsbD (16 + k) = false → stream.getLsbD k = group.smr.getLsbD k := by
  unfold Matches streamMask streamId
  rw [and_not_eq_iff]
  apply forall_congr'
  intro k
  apply imp_congr_right
  intro hk
  rw [BitVec.getLsbD_extractLsb', BitVec.getLsbD_extractLsb', BitVec.getLsbD_extractLsb',
    decide_eq_true hk, Nat.zero_add, Bool.true_and, Bool.true_and, Bool.true_and]

/-- The test of the code on a valid SMR is the architectural match. -/
theorem test_iff_matches (hvalid : group.valid = true) :
    stream.zeroExtend 32 &&& ~~~group.smrMask = group.smrId &&& ~~~group.smrMask ↔
      group.Matches stream := by
  rw [matches_iff, and_not_eq_iff]
  constructor
  · intro h k hk hmask
    have hbit := h k (by omega) (by rw [getLsbD_smrMask (by omega), hmask])
    rw [getLsbD_smrId, BitVec.zeroExtend, BitVec.getLsbD_setWidth,
      decide_eq_true (by omega : k < 32), decide_eq_true (by omega : k < 16), Bool.true_and,
      Bool.and_true] at hbit
    exact hbit
  · intro h k hk hmask
    rw [getLsbD_smrId, BitVec.zeroExtend, BitVec.getLsbD_setWidth,
      decide_eq_true hk, Bool.true_and]
    by_cases hk16 : k < 16
    · rw [decide_eq_true hk16, Bool.and_true]
      rw [getLsbD_smrMask hk16] at hmask
      -- The valid bit masks the top bit of the ID.
      have hne : k ≠ 15 := by
        intro he
        rw [he, valid_iff_getLsbD.mp hvalid] at hmask
        exact Bool.noConfusion hmask
      exact h k (by omega) hmask
    · rw [decide_eq_false hk16, Bool.and_false]
      exact BitVec.getLsbD_of_ge _ _ (by omega)

/-- The groups that the code keeps are those that have to be kept. -/
theorem kept_iff : group.kept skipStreams = true ↔ group.ToKeep skipStreams := by
  unfold kept ToKeep
  rw [Bool.and_eq_true]
  apply and_congr_right
  intro hvalid
  change armSmmuSkipStream group.smrMask (group.smrId &&& ~~~group.smrMask) skipStreams = true ↔ _
  cases skipStreams with
  | none => simp [armSmmuSkipStream]
  | some streams =>
    simp only [armSmmuSkipStream, List.any_eq_true, beq_iff_eq, test_iff_matches hvalid,
      Option.mem_def, Option.some.injEq, exists_eq_left']

end StreamGroup

end ProjectMu
