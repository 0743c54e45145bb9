import ProjectMu.Arm64Branch
import ProjectMu.WordLoop

/-!
# The reference implementations of the shell code

What the C functions `OslArm64TransferToKernel` do to memory before their final call: two
nested loops, over the load order list and over the words of each module, that differ in
what they do at a word. A result is `none` where the loops do not end within `n` passes.
-/

namespace ProjectMu

open Arm64

/-- `LoadOrderListHead` of the `LOADER_PARAMETER_BLOCK`. -/
def loadOrderListHead (osLoaderBlock : Address) : Address := osLoaderBlock + 0x10

/-- `DllBase` of a `KLDR_DATA_TABLE_ENTRY`, whose list entry comes first. -/
def dllBase (mem : Arm64.Memory) (entry : Address) : Address := mem.read64 (entry + 0x30)

def sizeOfImage (mem : Arm64.Memory) (entry : Address) : BitVec 32 := mem.read32 (entry + 0x40)

def forModules {σ : Type*} (mem : σ → Arm64.Memory) (body : Address → σ → σ × Bool) (n : ℕ)
    (osLoaderBlock : Address) (s : σ) : Option σ :=
  forEntries mem
    (fun n entry s => forWords body
      (dllBase (mem s) entry + (sizeOfImage (mem s) entry).setWidth 64) n (dllBase (mem s) entry) s)
    (loadOrderListHead osLoaderBlock) n ((mem s).read64 (loadOrderListHead osLoaderBlock)) s

/-- `movz x8, #0` for a read of the register, `nop` for a write. -/
def actlrEl1Body (current : Address) (mem : Arm64.Memory) : Arm64.Memory :=
  if mem.read32 current = 0xD5381028 then mem.write current 4 0xD2800008
  else if mem.read32 current = 0xD5181028 ∨ mem.read32 current = 0xD5181029 then
    mem.write current 4 0xD503201F
  else mem

def actlrEl1Reference (n : ℕ) (osLoaderBlock : Address) (mem : Arm64.Memory) :
    Option Arm64.Memory :=
  forModules id (fun current mem => (actlrEl1Body current mem, false)) n osLoaderBlock mem

def amcntenset0El0Body (current : Address) (mem : Arm64.Memory) : Arm64.Memory :=
  if mem.read32 current = 0xD53BD2A8 then mem.write current 4 0xD2800008 else mem

def amcntenset0El0Reference (n : ℕ) (osLoaderBlock : Address) (mem : Arm64.Memory) :
    Option Arm64.Memory :=
  forModules id (fun current mem => (amcntenset0El0Body current mem, false)) n osLoaderBlock mem

/-- The bytes of `n` instructions. -/
def arm64TotalInstructionLength (n : ℕ) : BitVec 64 := BitVec.ofNat 64 (4 * n)

def psciMemprotectBody (current : Address) (mem : Arm64.Memory) : Arm64.Memory :=
  let next := mem.read64 (current + arm64TotalInstructionLength 2)
  if mem.read64 current = 0xD2800003180002D5 ∧ next = 0xD2800001D2800002 then
    mem.write (current - arm64TotalInstructionLength 8) 4 0xD65F03C0
  else if mem.read64 current = 0xD2800002D2800003 ∧
      (next = 0x18000240D2800001 ∨ next = 0x180002C0D2800001) then
    mem.write (current - arm64TotalInstructionLength 7) 4 0xD65F03C0
  else mem

def psciMemprotectReference (n : ℕ) (osLoaderBlock : Address) (mem : Arm64.Memory) :
    Option Arm64.Memory :=
  forModules id (fun current mem => (psciMemprotectBody current mem, false)) n osLoaderBlock mem

structure IrmSearch where
  mem : Arm64.Memory
  gicInstr : Address
  realEstateFunc : Address

/-- The loop over a module is left once both places are known. -/
def irmX8Body (current : Address) (s : IrmSearch) : IrmSearch × Bool :=
  let gicInstr := if s.mem.read32 current = 0xD518CBA8 then current else s.gicInstr
  let realEstateFunc :=
    if s.mem.read64 current = 0x0009001600090003 then current else s.realEstateFunc
  (⟨s.mem, gicInstr, realEstateFunc⟩, gicInstr ≠ 0 ∧ realEstateFunc ≠ 0)

def arm64BranchLocationInstruction (currentOffset targetOffset : BitVec 64) : BitVec 32 :=
  0x94000000 ||| (((targetOffset - currentOffset) / 4).setWidth 32 &&& 0x7FFFFFF)

/-- Bit 26 of the distance falls on a bit of the opcode that is set anyway. -/
theorem arm64BranchLocationInstruction_eq (currentOffset targetOffset : Address) :
    arm64BranchLocationInstruction currentOffset targetOffset =
      encodeBl (targetOffset - currentOffset) := by
  have hfields (distance : BitVec 64) : distance.setWidth 32 =
      distance.extractLsb' 26 6 ++ distance.extractLsb' 0 26 := by
    have hjoin : distance.extractLsb' 26 6 ++ distance.extractLsb' 0 26 =
        distance.extractLsb' 0 32 := BitVec.extractLsb'_append_extractLsb'_eq_extractLsb' rfl
    rw [hjoin]
    exact BitVec.setWidth_eq_extractLsb' (by decide)
  have hopcode : (0x94000000 : BitVec 32) = 0b100101#6 ++ 0#26 := rfl
  have hmask : (0x7FFFFFF : BitVec 32) = 1#6 ++ BitVec.allOnes 26 := rfl
  have hbit : ∀ high : BitVec 6, 0b100101#6 ||| high &&& 1#6 = 0b100101#6 := by decide
  rw [arm64BranchLocationInstruction, hfields, hopcode, hmask, BitVec.and_append,
    BitVec.or_append, hbit, BitVec.and_allOnes, BitVec.zero_or]
  rfl

/-- The code that takes the place before `realEstateFunc`, two instructions at a time. -/
def irmX8Patches : List (BitVec 64) :=
  [0x910003FDA9BF7BFD, 0x9257F908B6400248, 0xAA0803F6B2400108, 0x92780D29D53800A9,
    0x52800115D2800014, 0x540000A0EB49229F, 0xAA0A02C8D370BE8A, 0xD5033F9FD518CBA8,
    0x510006B591000694, 0x1400000235FFFF15, 0xA8C17BFDD518CBA8]

/-- Store pairs of instructions one after the other. -/
def writePairs (mem : Arm64.Memory) (a : Address) : List (BitVec 64) → Arm64.Memory
  | [] => mem
  | v :: vs => writePairs (mem.write a 8 v) (a + arm64TotalInstructionLength 2) vs

def irmX8Install (s : IrmSearch) : Arm64.Memory :=
  if s.gicInstr ≠ 0 ∧ s.realEstateFunc ≠ 0 then
    let codeLocation := s.realEstateFunc - arm64TotalInstructionLength 42
    let mem := s.mem.write s.gicInstr 4
      ((arm64BranchLocationInstruction s.gicInstr codeLocation).setWidth 64)
    (writePairs mem codeLocation irmX8Patches).write
      (codeLocation + arm64TotalInstructionLength 22) 4 0xD65F03C0
  else s.mem

def irmX8Reference (n : ℕ) (osLoaderBlock : Address) (mem : Arm64.Memory) : Option Arm64.Memory :=
  (forModules IrmSearch.mem irmX8Body n osLoaderBlock ⟨mem, 0, 0⟩).map irmX8Install

end ProjectMu
