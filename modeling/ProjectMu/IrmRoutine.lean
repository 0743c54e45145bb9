import Mathlib
import ProjectMu.Arm64System
import ProjectMu.ShellCodeIrmStores

/-!
# The routine that takes the place of the interrupt write

The words that the IRM blocks store, as a program, and where the stores leave them in memory.
-/

namespace ProjectMu

open Arm64

/-- The two blocks that emulate the IRM flag. -/
inductive IrmBlock
  | irm
  | irmX8
  deriving DecidableEq, Repr

namespace IrmBlock

/-- The register that is written to ICC_SGI1R_EL1. -/
def source : IrmBlock → ℕ
  | irm => 10
  | irmX8 => 8

def scratch : IrmBlock → ℕ
  | irm => 8
  | irmX8 => 10

def patches : IrmBlock → List (BitVec 64)
  | irm => irmPatches
  | irmX8 => irmX8Patches

/-- The encoding of the write that is looked for. -/
def msr : IrmBlock → BitVec 32
  | irm => 0xD518CBAA
  | irmX8 => 0xD518CBA8

def program : IrmBlock → List Instr
  | irm => irmProgram
  | irmX8 => irmX8Program

theorem program_eq (b : IrmBlock) : b.program = irmSearch b.msr ++ irmStores b.patches := by
  cases b with
  | irm => rfl
  | irmX8 => exact irmX8Program_eq

theorem length_patches (b : IrmBlock) : b.patches.length = 11 := by
  cases b <;> rfl

end IrmBlock

def irmRoutine (b : IrmBlock) : List SysInstr :=
  [.stpPre 29 30 31 (-16), .plain (.addImm .x 29 31 0), .tbz b.source 40 18,
    .plain (.andImm b.source b.source 0xFFFFFEFFFFFFFFFF), .orrImm b.source b.source 1,
    .plain (.orr .x 22 31 b.source), .mrsMpidr 9, .plain (.andImm 9 9 0xF00),
    .plain (.movz .x 20 0 0), .plain (.movz .w 21 8 0),
    -- the loop over the cores, which leaves this one out
    .cmpLsr 20 9 8, .plain (.bCond .eq 5), .lsl b.scratch 20 16,
    .plain (.orr .x b.source 22 b.scratch), .msrSgi1r b.source, .dsb,
    .plain (.addImm .x 20 20 1), .plain (.subImm .w 21 21 1), .cbnz .w 21 (-8), .plain (.b 2),
    .msrSgi1r b.source, .ldpPost 29 30 31 16, .ret 30]

/-- The words of pairs of instructions, and the return behind them. -/
def routineWords (patches : List (BitVec 64)) : List (BitVec 32) :=
  patches.flatMap (fun v => [v.extractLsb' 0 32, v.extractLsb' 32 32]) ++ [0xD65F03C0]

theorem decodeSys_routineWords (b : IrmBlock) :
    (routineWords b.patches).map decodeSys = (irmRoutine b).map some := by
  cases b <;> decide +kernel

/-! ## The stored words -/

variable {mem : Arm64.Memory} {a x : Address} {v : BitVec 64} {k n : ℕ} {vs : List (BitVec 64)}

/-- How far an address lies behind another place of its range. -/
theorem toNat_sub_add_ofNat (h : k ≤ (x - a).toNat) :
    (x - (a + BitVec.ofNat 64 k)).toNat = (x - a).toNat - k := by
  have hlt := (x - a).isLt
  have hsub : x - (a + BitVec.ofNat 64 k) = x - a - BitVec.ofNat 64 k := by grind
  have hk : (BitVec.ofNat 64 k).toNat = k := by
    rw [BitVec.toNat_ofNat, Nat.mod_eq_of_lt (by omega)]
  rw [hsub, BitVec.toNat_sub_of_le (by rw [BitVec.le_def, hk]; exact h), hk]

theorem writePairs_of_le (h : 8 * vs.length ≤ (x - a).toNat) : writePairs mem a vs x = mem x := by
  induction vs generalizing mem a with
  | nil => rfl
  | cons v vs ih =>
    rw [List.length_cons] at h
    have hrest : 8 * vs.length ≤ (x - (a + BitVec.ofNat 64 8)).toNat := by
      rw [toNat_sub_add_ofNat (by omega)]
      omega
    exact (ih hrest).trans (Memory.write_of_le (by omega))

/-- The stores of pairs leave their words. -/
theorem read32_writePairs (hlength : 8 * vs.length < 2 ^ 32) {w : BitVec 32}
    (hw : (vs.flatMap fun v => [v.extractLsb' 0 32, v.extractLsb' 32 32])[k]? = some w) :
    (writePairs mem a vs).read32 (word a k) = w := by
  induction vs generalizing mem a k with
  | nil => cases hw
  | cons v vs ih =>
    rw [List.length_cons] at hlength
    have hfirst {j : ℕ} (hj : j + 4 ≤ 8) :
        (writePairs (mem.write a 8 v) (a + 8) vs).read32 (a + BitVec.ofNat 64 j) =
          v.extractLsb' (8 * j) 32 := by
      rw [← @Memory.read32_write mem a v j 8 hj (by omega)]
      refine Memory.read32_congr fun i hi => writePairs_of_le ?_
      bv_omega
    match k with
    | 0 =>
      rw [← Option.some_inj.mp hw]
      exact hfirst (show 0 + 4 ≤ 8 by omega)
    | 1 =>
      rw [← Option.some_inj.mp hw]
      exact hfirst (show 4 + 4 ≤ 8 by omega)
    | k + 2 =>
      have hrest := @ih (mem.write a 8 v) (a + 8) k (by omega) hw
      rw [← word_succ, ← word_succ]
      have hword : word a k + 4 + 4 = word (a + 8) k := by
        rw [word, word]
        grind
      rw [hword]
      exact hrest

variable {patches : List (BitVec 64)} {gicInstr realEstateFunc : Address} {w : BitVec 32}

/-- The bytes of the routine, in front of the place that the search has found. -/
def codeLocation (realEstateFunc : Address) : Address := realEstateFunc - 0xA8

theorem irmStored_eq : irmStored patches mem gicInstr realEstateFunc =
    (writePairs (mem.write gicInstr 4 ((arm64BranchLocationInstruction gicInstr
      (codeLocation realEstateFunc)).setWidth 64)) (codeLocation realEstateFunc) patches).write
        (codeLocation realEstateFunc + BitVec.ofNat 64 88) 4 0xD65F03C0 := rfl

theorem read32_irmStored_gicInstr (hpatches : patches.length = 11)
    (hapart : Disjoint (range gicInstr 4) (range (codeLocation realEstateFunc) 0x5C)) :
    (irmStored patches mem gicInstr realEstateFunc).read32 gicInstr =
      arm64BranchLocationInstruction gicInstr (codeLocation realEstateFunc) := by
  have hread : (irmStored patches mem gicInstr realEstateFunc).read32 gicInstr =
      (mem.write gicInstr 4 ((arm64BranchLocationInstruction gicInstr
        (codeLocation realEstateFunc)).setWidth 64)).read32 gicInstr := by
    refine Memory.read32_congr fun k hk => ?_
    have hin : gicInstr + BitVec.ofNat 64 k ∈ range gicInstr 4 := add_mem_range hk (by omega)
    have hout : 0x5C ≤ (gicInstr + BitVec.ofNat 64 k - codeLocation realEstateFunc).toNat :=
      Nat.not_lt.mp (Set.disjoint_left.mp hapart hin)
    rw [irmStored_eq]
    refine (Memory.write_of_le ?_).trans (writePairs_of_le ?_)
    · rw [toNat_sub_add_ofNat (by omega)]
      omega
    · rw [hpatches]
      exact le_trans (by decide) hout
  rw [hread, Memory.read32_write_self]
  exact BitVec.setWidth_setWidth_of_le _ (by omega)

theorem length_pairWords (vs : List (BitVec 64)) :
    (vs.flatMap fun v => [v.extractLsb' 0 32, v.extractLsb' 32 32]).length = 2 * vs.length := by
  induction vs with
  | nil => rfl
  | cons v vs ih =>
    rw [List.flatMap_cons, List.length_append, ih]
    exact Nat.add_comm 2 _

theorem read32_irmStored_routine (hpatches : patches.length = 11)
    (hw : (routineWords patches)[k]? = some w) :
    (irmStored patches mem gicInstr realEstateFunc).read32
      (word (codeLocation realEstateFunc) k) = w := by
  have hlength := length_pairWords patches
  rw [hpatches] at hlength
  rw [routineWords] at hw
  rcases lt_or_ge k 22 with hk | hk
  · rw [List.getElem?_append_left (by omega)] at hw
    rw [irmStored_eq, ← read32_writePairs (by omega) hw]
    refine Memory.read32_congr fun j hj => Memory.write_of_le ?_
    have hsub : word (codeLocation realEstateFunc) k + BitVec.ofNat 64 j -
        (codeLocation realEstateFunc + BitVec.ofNat 64 88) =
          BitVec.ofNat 64 (4 * k + j) - BitVec.ofNat 64 88 := by
      rw [word, BitVec.add_assoc, ← BitVec.ofNat_add, offset_sub_offset]
    rw [hsub]
    bv_omega
  · rw [List.getElem?_append_right (by omega), hlength] at hw
    obtain ⟨hlast, rfl⟩ := List.getElem?_eq_some_iff.mp hw
    have hindex : k = 22 := by
      rw [List.length_singleton] at hlast
      omega
    subst hindex
    rw [irmStored_eq]
    exact Memory.read32_write_self

end ProjectMu
