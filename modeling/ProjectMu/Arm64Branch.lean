import ProjectMu.Arm64Machine

/-!
# Branches with link

A BL holds a signed 26-bit distance in instructions, so it reaches 128 MiB either way.
-/

namespace Arm64

/-- Where a word branches to, if it is a BL. -/
def blTarget (pc : Address) (w : BitVec 32) : Option Address :=
  if w.extractLsb' 26 6 = 0b100101 then
    some (pc + (w.extractLsb' 0 26 ++ 0#2).signExtend 64)
  else none

def encodeBl (distance : BitVec 64) : BitVec 32 := 0b100101#6 ++ (distance / 4).extractLsb' 0 26

variable {n : ℕ} {distance : BitVec 64}

/-- A value in the range of a narrower signed integer comes back from it. -/
theorem signExtend_setWidth (hn : n < 64) (hlow : -2 ^ n ≤ distance.toInt)
    (hhigh : distance.toInt < 2 ^ n) : (distance.setWidth (n + 1)).signExtend 64 = distance := by
  apply BitVec.eq_of_toInt_eq
  have hdvd : 2 ^ (n + 1) ∣ 2 ^ 64 := Nat.pow_dvd_pow 2 hn
  have hbmod : (distance.toNat : ℤ).bmod (2 ^ (n + 1)) = distance.toInt.bmod (2 ^ (n + 1)) := by
    rw [BitVec.toInt_eq_toNat_bmod, Int.bmod_bmod_of_dvd hdvd]
  rw [BitVec.toInt_signExtend_of_le hn, BitVec.toInt_setWidth, hbmod]
  refine Int.bmod_eq_of_le_mul_two ?_ ?_
  · rw [Nat.pow_succ]
    push_cast
    omega
  · rw [Nat.pow_succ]
    push_cast
    omega

theorem extractLsb'_div_four_append (h : 4 ∣ distance.toNat) :
    (distance / 4).extractLsb' 0 26 ++ 0#2 = distance.setWidth 28 := by
  apply BitVec.eq_of_toNat_eq
  rw [BitVec.toNat_append, BitVec.extractLsb'_toNat, BitVec.toNat_udiv, BitVec.toNat_setWidth,
    Nat.shiftRight_zero, Nat.shiftLeft_eq]
  change distance.toNat / 4 % 2 ^ 26 * 2 ^ 2 ||| 0 = _
  rw [Nat.or_zero]
  omega

theorem opcode_encodeBl : (encodeBl distance).extractLsb' 26 6 = 0b100101 :=
  BitVec.extractLsb'_append_eq_left

/-- The distance comes back from its field. -/
theorem signExtend_encodeBl (haligned : 4 ∣ distance.toNat) (hlow : -2 ^ 27 ≤ distance.toInt)
    (hhigh : distance.toInt < 2 ^ 27) :
    ((encodeBl distance).extractLsb' 0 26 ++ 0#2).signExtend 64 = distance := by
  have hfield : (encodeBl distance).extractLsb' 0 26 = (distance / 4).extractLsb' 0 26 :=
    BitVec.extractLsb'_append_eq_right
  rw [hfield, extractLsb'_div_four_append haligned, signExtend_setWidth (by decide) hlow hhigh]

theorem blTarget_encodeBl (pc : Address) (haligned : 4 ∣ distance.toNat)
    (hlow : -2 ^ 27 ≤ distance.toInt) (hhigh : distance.toInt < 2 ^ 27) :
    blTarget pc (encodeBl distance) = some (pc + distance) := by
  rw [blTarget, if_pos opcode_encodeBl, signExtend_encodeBl haligned hlow hhigh]

end Arm64
