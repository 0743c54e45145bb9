import ProjectMu.Arm64Program
import ProjectMu.WordLoop

/-!
# Instructions that compute addresses

ADRP and the 64-bit ADD of an immediate, their encodings, and runs over straight-line code made
of them. A register is derived when its value comes from an ADRP, whatever the registers held
before.
-/

namespace Arm64

/-- The field of `n` bits from bit `lo` on, as C takes it from a word. -/
theorem ushiftRight_and_mask (w : BitVec 32) (lo : ℕ) {n : ℕ} (hn : n ≤ 32) :
    w >>> lo &&& BitVec.ofNat 32 (2 ^ n - 1) = (w.extractLsb' lo n).setWidth 32 := by
  have hle : 2 ^ n ≤ 2 ^ 32 := Nat.pow_le_pow_right (by decide) hn
  have hpos : 0 < 2 ^ n := Nat.two_pow_pos n
  apply BitVec.eq_of_toNat_eq
  rw [BitVec.toNat_and, BitVec.toNat_ofNat, Nat.mod_eq_of_lt (by omega),
    Nat.and_two_pow_sub_one_eq_mod, BitVec.toNat_ushiftRight, BitVec.toNat_setWidth,
    BitVec.extractLsb'_toNat]
  exact (Nat.mod_eq_of_lt ((Nat.mod_lt _ hpos).trans_le hle)).symm

inductive AddressInstr
  | adrp (rd : BitVec 5) (imm : BitVec 21)
  | add (rd rn : BitVec 5) (imm : BitVec 12)
  deriving DecidableEq, Repr

namespace AddressInstr

def encode : AddressInstr → BitVec 32
  | .adrp rd imm => 1#1 ++ imm.extractLsb' 0 2 ++ 0b10000#5 ++ imm.extractLsb' 2 19 ++ rd
  | .add rd rn imm => 0b1001000100#10 ++ imm ++ rn ++ rd

/-- What an ADRP computes from its own address. -/
def page (pc : Address) (imm : BitVec 21) : Address :=
  (pc &&& ~~~(0xFFF : Address)) + imm.signExtend 64 <<< 12

/-- Register 31 is the zero register of an ADRP and the stack pointer of an ADD. -/
def exec (pc : Address) : AddressInstr → Core → Core
  | .adrp rd imm, c => c.write rd.toNat (page pc imm)
  | .add rd rn imm, c => (Instr.addImm .x rd.toNat rn.toNat (imm.setWidth 64)).exec c

def execAll : Address → List AddressInstr → Core → Core
  | _, [], c => c
  | pc, i :: is, c => execAll (pc + 4) is (i.exec pc c)

/-- The derived registers after an instruction; 31 is the stack pointer. -/
def derives : AddressInstr → Finset ℕ → Finset ℕ
  | .adrp rd _, s => if rd.toNat = 31 then s else insert rd.toNat s
  | .add rd rn _, s => if rn.toNat ∈ s then insert rd.toNat s else s.erase rd.toNat

def derived (is : List AddressInstr) : Finset ℕ := is.foldl (fun s i => i.derives s) ∅

variable {is : List AddressInstr} {i : AddressInstr}

theorem opcode_add (rd rn : BitVec 5) (imm : BitVec 12) {lo : ℕ} (n : ℕ) (h : 22 ≤ lo) :
    (encode (.add rd rn imm)).extractLsb' lo n =
      (0b1001000100#10).extractLsb' (lo - 22) n := by
  rw [encode, BitVec.extractLsb'_append_eq_of_le (by omega),
    BitVec.extractLsb'_append_eq_of_le (by omega), BitVec.extractLsb'_append_eq_of_le (by omega),
    Nat.sub_sub, Nat.sub_sub]

/-- The machine takes the encoding of an ADD for this ADD. -/
theorem decode_add (rd rn : BitVec 5) (imm : BitVec 12) :
    decode (encode (.add rd rn imm)) =
      some (.addImm .x rd.toNat rn.toNat (imm.setWidth 64)) := by
  have hrd : (encode (.add rd rn imm)).extractLsb' 0 5 = rd := BitVec.extractLsb'_append_eq_right
  have hrn : (encode (.add rd rn imm)).extractLsb' 5 5 = rn := by
    rw [encode, BitVec.extractLsb'_append_eq_of_le (by decide)]
    exact BitVec.extractLsb'_append_eq_right
  have himm : (encode (.add rd rn imm)).extractLsb' 10 12 = imm := by
    rw [encode, BitVec.extractLsb'_append_eq_of_le (by decide),
      BitVec.extractLsb'_append_eq_of_le (by decide)]
    exact BitVec.extractLsb'_append_eq_right
  have hsize : (encode (.add rd rn imm)).getLsbD 31 = true := by
    rw [encode, BitVec.getLsbD_append, BitVec.getLsbD_append, BitVec.getLsbD_append]
    rfl
  have hnop : encode (.add rd rn imm) ≠ 0xD503201F#32 := by
    intro h
    have hopcode := opcode_add rd rn imm 10 (le_refl 22)
    rw [h] at hopcode
    exact absurd hopcode (by decide)
  -- bit 21 is the first bit of the immediate
  have hopcode (c : BitVec 10) (hc : c.extractLsb' 1 9 ≠ 0b001000100) :
      (encode (.add rd rn imm)).extractLsb' 21 10 ≠ c := by
    rintro rfl
    refine hc (Eq.trans ?_ (opcode_add rd rn imm 9 (le_refl 22)))
    ext j hj
    rw [BitVec.getElem_extractLsb', BitVec.getElem_extractLsb', BitVec.getLsbD_extractLsb',
      decide_eq_true (by omega), Bool.true_and, ← Nat.add_assoc]
  simp [decode, hnop, hsize, opcode_add, hopcode, hrd, hrn, himm]

theorem execAll_take_succ {pc : Address} {c : Core} {k : ℕ} (h : is[k]? = some i) :
    execAll pc (is.take (k + 1)) c = i.exec (word pc k) (execAll pc (is.take k) c) := by
  induction is generalizing pc c k with
  | nil => cases h
  | cons j is ih =>
    cases k with
    | zero =>
      obtain rfl : j = i := by simpa using h
      rw [word_zero]
      rfl
    | succ k =>
      rw [List.getElem?_cons_succ] at h
      rw [List.take_succ_cons, List.take_succ_cons, execAll, execAll, ih h, word_add_four]

theorem derived_take_succ {k : ℕ} (h : is[k]? = some i) :
    derived (is.take (k + 1)) = i.derives (derived (is.take k)) := by
  rw [derived, List.take_add_one, h, List.foldl_append]
  rfl

theorem mem_derives_add {rd rn : BitVec 5} {imm : BitVec 12} {s : Finset ℕ} :
    rd.toNat ∈ (add rd rn imm).derives s ↔ rn.toNat ∈ s := by
  rw [derives]
  split
  case isTrue h => exact iff_of_true (Finset.mem_insert_self _ _) h
  case isFalse h => exact iff_of_false (Finset.notMem_erase _ _) h

theorem readSp_exec_add (pc : Address) (rd rn : BitVec 5) (imm : BitVec 12) (c : Core) :
    ((add rd rn imm).exec pc c).readSp rd.toNat = c.readSp rn.toNat + imm.setWidth 64 := by
  rw [exec, Instr.exec, Core.writeSp, Core.readSp]
  split
  · rfl
  · exact Function.update_self ..

theorem readSp_exec_add_of_ne {pc : Address} {rd rn : BitVec 5} {imm : BitVec 12} {c : Core}
    {r : ℕ} (h : r ≠ rd.toNat) : ((add rd rn imm).exec pc c).readSp r = c.readSp r :=
  Core.readSp_writeSp_of_ne h

theorem readSp_exec_adrp {pc : Address} {rd : BitVec 5} {imm : BitVec 21} {c : Core}
    (h : rd.toNat ≠ 31) : ((adrp rd imm).exec pc c).readSp rd.toNat = page pc imm := by
  rw [exec, Core.write, if_neg h, Core.readSp, if_neg h]
  exact Function.update_self ..

theorem readSp_exec_adrp_of_ne {pc : Address} {rd : BitVec 5} {imm : BitVec 21} {c : Core} {r : ℕ}
    (h : r ≠ rd.toNat) : ((adrp rd imm).exec pc c).readSp r = c.readSp r := by
  rw [exec, Core.readSp, Core.readSp, Core.write_sp, Core.write_x h]

end AddressInstr

end Arm64
