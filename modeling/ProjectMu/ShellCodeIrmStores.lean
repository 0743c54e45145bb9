import ProjectMu.ShellCodeBlocks

/-!
# The stores of the IRM blocks

Both blocks store a branch at the first of the two places and the code it goes to before the
second. They differ in the register that this code takes its value from.
-/

namespace ProjectMu

open Arm64

attribute [local simp] Instr.exec Core.read Core.readSp Core.write Core.writeSp Size.narrow
  Size.load Size.compare

variable {p : List Instr} {P : Set Address} {c : Core} {i : ℕ} {gicInstr realEstateFunc : Address}
  {patches : List (BitVec 64)}

/-- Pairs of instructions stored one after the other, from an offset to `x3` on. -/
def patchesX : List (BitVec 64) → BitVec 64 → List Instr
  | [], _ => []
  | v :: vs, offset => patchX v offset ++ patchesX vs (offset + 8)

theorem runs_patchX {v offset : BitVec 64} (hfetch : (p.drop i).take 5 = patchX v offset)
    (hkeep : ∀ a ∈ P, 8 ≤ (a - (c.x 3 + offset)).toNat) :
    ∃ d, Runs p P i c (i + 5) d ∧ d.x 3 = c.x 3 ∧ d.mem = c.mem.write (c.x 3 + offset) 8 v := by
  have hmoves : (p.drop i).take 4 = moveX 2 v := by
    have := congrArg (List.take 4) hfetch
    rwa [List.take_take] at this
  have hstr : p[i + 4]? = some (.str .x 2 3 offset) := by
    have := congrArg (·[4]?) hfetch
    simpa [patchX, moveX] using this
  have hmove : Runs p P i c (i + 4) (execAll (moveX 2 v) c) := .straight (moveX 2 v) hmoves rfl
  rw [moveX_exec (by omega)] at hmove
  have hstore : Runs p P (i + 4) (c.write 2 v) (i + 5)
      ((c.write 2 v).withMem (c.mem.write (c.x 3 + offset) 8 v)) :=
    .store .x 2 3 offset hstr rfl rfl hkeep
  exact ⟨_, hmove.trans hstore, rfl, rfl⟩

theorem runs_patchesX {vs : List (BitVec 64)} {offset : BitVec 64}
    (hfetch : (p.drop i).take (5 * vs.length) = patchesX vs offset)
    (hkeep : ∀ a ∈ P, 8 * vs.length ≤ (a - (c.x 3 + offset)).toNat) :
    ∃ d, Runs p P i c (i + 5 * vs.length) d ∧ d.x 3 = c.x 3 ∧
      d.mem = writePairs c.mem (c.x 3 + offset) vs := by
  induction vs generalizing i c offset with
  | nil => exact ⟨c, .refl _ _, rfl, rfl⟩
  | cons v vs ih =>
    have hlength : 5 * (v :: vs).length = 5 + 5 * vs.length := by
      rw [List.length_cons]
      omega
    have hfirst : (p.drop i).take 5 = patchX v offset := by
      have := congrArg (List.take 5) hfetch
      rwa [hlength, List.take_take, Nat.min_eq_left (by omega)] at this
    have hrest : (p.drop (i + 5)).take (5 * vs.length) = patchesX vs (offset + 8) := by
      have := congrArg (List.drop 5) hfetch
      rwa [hlength, List.drop_take, Nat.add_sub_cancel_left, List.drop_drop] at this
    have hkeepFirst : ∀ a ∈ P, 8 ≤ (a - (c.x 3 + offset)).toNat := fun a ha => by
      have := hkeep a ha
      rw [List.length_cons] at this
      omega
    obtain ⟨d, hrun, hx, hmem⟩ := runs_patchX hfirst hkeepFirst
    have hkeepRest : ∀ a ∈ P, 8 * vs.length ≤ (a - (d.x 3 + (offset + 8))).toNat := fun a ha => by
      have := hkeep a ha
      rw [List.length_cons] at this
      have hsub : a - (d.x 3 + (offset + 8)) = a - (c.x 3 + offset) - 8 := by
        rw [hx]
        bv_omega
      rw [hsub, BitVec.toNat_sub_of_le (by rw [BitVec.le_def]; change 8 ≤ _; omega)]
      change _ ≤ _ - 8
      omega
    obtain ⟨e, hruns, hx', hmem'⟩ := ih hrest hkeepRest
    refine ⟨e, ?_, hx'.trans hx, ?_⟩
    · rw [hlength, ← Nat.add_assoc]
      exact hrun.trans hruns
    · rw [hmem', hmem, hx, ← BitVec.add_assoc]
      rfl

/-- The block keeps 26 bits of the distance and the reference 27, but the 27th is set in the
opcode. -/
theorem branch_getLsbD (d : BitVec 64) {i : ℕ} (hi : i < 32) :
    (((d.setWidth 32).extractLsb' 2 26).setWidth 64 ||| (0x9400 : BitVec 64) <<< 16).getLsbD i =
      (0x94000000 ||| ((d / 4).setWidth 32 &&& 0x7FFFFFF)).getLsbD i := by
  have hdiv : d / (4 : BitVec 64) = d >>> 2 :=
    BitVec.udiv_twoPow_eq_of_lt (x := d) (k := 2) (by omega)
  have hones : (0x7FFFFFF : BitVec 32) = (BitVec.allOnes 27).setWidth 32 := rfl
  have hbit : (0x9400 : BitVec 64) <<< 16 = (37 : BitVec 64) <<< 26 := rfl
  have hbit' : (0x94000000 : BitVec 32) = ((37 : BitVec 64) <<< 26).setWidth 32 := rfl
  have h64 : i < 64 := by omega
  rw [hdiv, hones, hbit, hbit']
  simp only [BitVec.getLsbD_or, BitVec.getLsbD_and, BitVec.getLsbD_setWidth,
    BitVec.getLsbD_shiftLeft, BitVec.getLsbD_extractLsb', BitVec.getLsbD_ushiftRight,
    BitVec.getLsbD_allOnes, hi, h64, decide_true, Bool.true_and]
  rcases lt_trichotomy i 26 with hlt | rfl | hgt
  · have h27 : i < 27 := by omega
    have hin : 2 + i < 32 := by omega
    simp [hlt, h27, hin]
  · simp
  · have h26 : ¬i < 26 := by omega
    have h27 : ¬i < 27 := by omega
    simp [h26, h27]

theorem branchLocation_eq (d : BitVec 64) :
    Size.w.narrow (((d.setWidth 32).extractLsb' 2 26).setWidth 64 ||| (0x9400 : BitVec 64) <<< 16) =
      (0x94000000 ||| ((d / 4).setWidth 32 &&& 0x7FFFFFF) : BitVec 32).setWidth 64 := by
  refine congrArg (BitVec.setWidth 64) (BitVec.eq_of_getLsbD_eq fun i hi => ?_)
  rw [BitVec.getLsbD_setWidth, branch_getLsbD d hi, decide_eq_true hi, Bool.true_and]

/-- The branch at the first place. -/
def branchStore : List Instr :=
  [.subImm .x 2 3 0xA8, .sub .x 2 2 4, .ubfx 2 2 2 26, .movz .w 5 0x9400 16, .orr .w 2 2 5,
    .str .w 2 4 0]

/-- The return at the end of the code, and what fills the block up. -/
def returnStore : List Instr :=
  moveW 2 0xD65F03C0 ++ [.str .w 2 3 (-0x50), .nop, .nop, .nop]

def irmStores (patches : List (BitVec 64)) : List Instr :=
  branchStore ++ (patchesX patches (-0xA8) ++ returnStore)

/-- Memory after the stores. -/
def irmStored (patches : List (BitVec 64)) (mem : Arm64.Memory)
    (gicInstr realEstateFunc : Address) : Arm64.Memory :=
  let codeLocation := realEstateFunc - arm64TotalInstructionLength 42
  let mem := mem.write gicInstr 4
    ((arm64BranchLocationInstruction gicInstr codeLocation).setWidth 64)
  (writePairs mem codeLocation patches).write
    (codeLocation + arm64TotalInstructionLength 22) 4 0xD65F03C0

theorem length_patchesX (vs : List (BitVec 64)) (offset : BitVec 64) :
    (patchesX vs offset).length = 5 * vs.length := by
  induction vs generalizing offset with
  | nil => rfl
  | cons v vs ih =>
    rw [patchesX, List.length_append, ih, List.length_cons, Nat.mul_succ, Nat.add_comm]
    rfl

theorem runs_branchStore (hgic : c.x 4 = gicInstr) (hreal : c.x 3 = realEstateFunc)
    (hkeep : ∀ a ∈ P, 4 ≤ (a - gicInstr).toNat) :
    ∃ d, Runs branchStore P 0 c 6 d ∧ d.x 3 = realEstateFunc ∧
      d.mem = c.mem.write gicInstr 4
        ((arm64BranchLocationInstruction gicInstr (realEstateFunc - 0xA8)).setWidth 64) := by
  let encode : List Instr :=
    [.subImm .x 2 3 0xA8, .sub .x 2 2 4, .ubfx 2 2 2 26, .movz .w 5 0x9400 16, .orr .w 2 2 5]
  let d := execAll encode c
  have hencode : Runs branchStore P 0 c 5 d := .straight encode rfl rfl
  have hvalue : d.read 2 =
      (arm64BranchLocationInstruction gicInstr (realEstateFunc - 0xA8)).setWidth 64 := by
    rw [← hgic, ← hreal]
    exact branchLocation_eq _
  have haddress : d.readSp 4 + 0 = gicInstr := (BitVec.add_zero _).trans hgic
  have hstore : Runs branchStore P 5 d 6 _ := .store .w 2 4 0 rfl haddress hvalue hkeep
  exact ⟨_, hencode.trans hstore, hreal, rfl⟩

theorem runs_returnStore (hreal : c.x 3 = realEstateFunc)
    (hkeep : ∀ a ∈ P, 4 ≤ (a - (realEstateFunc - 0xA8 + 0x58)).toNat) :
    ∃ d, Runs returnStore P 0 c 6 d ∧
      d.mem = c.mem.write (realEstateFunc - 0xA8 + 0x58) 4 0xD65F03C0 := by
  let d := c.write 2 0xD65F03C0
  have hmove : Runs returnStore P 0 c 2 d := by
    have hmove : Runs returnStore P 0 c 2 (execAll (moveW 2 0xD65F03C0) c) :=
      .straight (moveW 2 0xD65F03C0) rfl rfl
    rwa [moveW_exec (by omega)] at hmove
  have haddress : d.readSp 3 + (-0x50) = realEstateFunc - 0xA8 + 0x58 := by
    change c.x 3 + _ = _
    rw [hreal]
    bv_omega
  have hstore : Runs returnStore P 2 d 3 _ := .store .w 2 3 (-0x50) rfl haddress rfl hkeep
  let nops : List Instr := [.nop, .nop, .nop]
  exact ⟨_, hmove.trans (hstore.trans (.straight nops rfl rfl)), rfl⟩

/-- The stores of a block, from its eleven pairs of instructions. -/
theorem runs_irmStores (hgic : c.x 4 = gicInstr) (hreal : c.x 3 = realEstateFunc)
    (hpatches : patches.length = 11)
    (hkeep : ∀ a ∈ P, 4 ≤ (a - gicInstr).toNat ∧ 0x5C ≤ (a - (realEstateFunc - 0xA8)).toNat) :
    ∃ d, Runs (irmStores patches) P 0 c 67 d ∧
      d.mem = irmStored patches c.mem gicInstr realEstateFunc := by
  have hcode : realEstateFunc - 0xA8 = realEstateFunc + (-0xA8) := BitVec.sub_eq_add_neg ..
  have hlength : (patchesX patches (-0xA8)).length = 55 := by rw [length_patchesX, hpatches]
  obtain ⟨c₁, hbranch, hx₁, hmem₁⟩ := runs_branchStore hgic hreal fun a ha => (hkeep a ha).1
  have hkeepPatches : ∀ a ∈ P, 8 * patches.length ≤ (a - (c₁.x 3 + (-0xA8))).toNat := by
    intro a ha
    rw [hx₁, ← hcode, hpatches]
    exact le_trans (by decide) (hkeep a ha).2
  obtain ⟨c₂, hpairs, hx₂, hmem₂⟩ := @runs_patchesX (patchesX patches (-0xA8)) P c₁ 0 patches
    (-0xA8) (by rw [List.drop_zero, ← length_patchesX, List.take_length]) hkeepPatches
  have hkeepReturn : ∀ a ∈ P, 4 ≤ (a - (realEstateFunc - 0xA8 + 0x58)).toNat := by
    intro a ha
    have := (hkeep a ha).2
    bv_omega
  obtain ⟨c₃, hreturn, hmem₃⟩ := runs_returnStore (hx₂.trans hx₁) hkeepReturn
  have hbranch := hbranch.append (patchesX patches (-0xA8) ++ returnStore)
  have hpairs := (hpairs.append returnStore).prepend branchStore
  have hreturn := (hreturn.prepend (patchesX patches (-0xA8))).prepend branchStore
  rw [hpatches] at hpairs
  rw [hlength] at hreturn
  refine ⟨c₃, hbranch.trans (hpairs.trans hreturn), ?_⟩
  rw [hmem₃, hmem₂, hmem₁, hx₁, ← hcode]
  rfl

/-- The blocks up to their stores, with the encoding of the instruction that they look for. -/
def irmSearch (msr : BitVec 32) : List Instr :=
  List.flatten [
    [.orr .x 10 31 0, .ldrPre .x 9 10 0x10, .cmp .x 9 10, .bCond .eq 101,
      .movz .x 3 0 0, .movz .x 4 0 0],
    moveW 8 msr, moveX 7 0x0009001600090003,
    [.b 4,
      .ldr .x 9 9 0, .cmp .x 9 10, .b 19,
      .ldr .x 2 9 0x30, .ldr .w 6 9 0x40, .add .x 6 6 2, .cmp .x 2 6, .bCond .cs (-7),
      .ldr .w 5 2 0, .cmp .w 5 8, .csel .x 4 4 2 .ne,
      .ldr .x 5 2 0, .cmp .x 5 7, .csel .x 3 3 2 .ne,
      .cmpImm .x 4 0, .ccmp .x 3 0 ⟨false, true, false, false⟩ .ne, .bCond .ne (-16),
      .addImm .x 2 2 4, .cmp .x 2 6, .bCond .cc (-11), .b (-20),
      .cmpImm .x 4 0, .ccmp .x 3 0 ⟨false, true, false, false⟩ .ne, .bCond .eq 68]]

/-- The pairs of the `IRM` block. -/
def irmPatches : List (BitVec 64) :=
  [0x910003FDA9BF7BFD, 0x9257F94AB640024A, 0xAA0A03F6B240014A, 0x92780D29D53800A9,
    0x52800115D2800014, 0x540000A0EB49229F, 0xAA0802CAD370BE88, 0xD5033F9FD518CBAA,
    0x510006B591000694, 0x1400000235FFFF15, 0xA8C17BFDD518CBAA]

def irmProgram : List Instr := irmSearch 0xD518CBAA ++ irmStores irmPatches

theorem irmCode_encodes : Encodes irmCode irmProgram := by
  decide +kernel

theorem irmX8Program_eq : irmX8Program = irmSearch 0xD518CBA8 ++ irmStores irmX8Patches := by
  decide +kernel

end ProjectMu
