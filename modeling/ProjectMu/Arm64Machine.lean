import Mathlib.Tactic

/-!
# A small AArch64 machine

Registers, flags and byte memory, the instructions of a subset of A64 with their encodings,
and the machine that fetches from memory at its program counter. An encoding outside the
subset stops the machine.
-/

namespace Arm64

abbrev Address := BitVec 64

abbrev Memory := Address → BitVec 8

namespace Memory

def read32 (m : Memory) (a : Address) : BitVec 32 :=
  m (a + 3) ++ m (a + 2) ++ m (a + 1) ++ m a

def read64 (m : Memory) (a : Address) : BitVec 64 :=
  m.read32 (a + 4) ++ m.read32 a

/-- Little-endian store of the low `n` bytes of a value. -/
def write (m : Memory) (a : Address) (n : ℕ) (v : BitVec 64) : Memory := fun x =>
  if (x - a).toNat < n then v.extractLsb' (8 * (x - a).toNat) 8 else m x

end Memory

structure Flags where
  n : Bool
  z : Bool
  c : Bool
  v : Bool
  deriving DecidableEq, Repr

/-- The flags of a comparison by subtraction. -/
def subFlags {w : ℕ} (a b : BitVec w) : Flags :=
  ⟨(a - b).msb, a == b, b.toNat ≤ a.toNat, a.msb != b.msb && (a - b).msb != a.msb⟩

/-- Everything the processor holds but its program counter. -/
structure Core where
  x : ℕ → BitVec 64
  sp : BitVec 64
  flags : Flags
  mem : Memory

namespace Core

def read (c : Core) (r : ℕ) : BitVec 64 := if r = 31 then 0 else c.x r

/-- In an address or an immediate sum, register 31 is the stack pointer. -/
def readSp (c : Core) (r : ℕ) : BitVec 64 := if r = 31 then c.sp else c.x r

def write (c : Core) (r : ℕ) (v : BitVec 64) : Core :=
  if r = 31 then c else { c with x := Function.update c.x r v }

def writeSp (c : Core) (r : ℕ) (v : BitVec 64) : Core :=
  if r = 31 then { c with sp := v } else { c with x := Function.update c.x r v }

end Core

inductive Cond
  | eq
  | ne
  | cs
  | cc
  | hi
  deriving DecidableEq, Repr

def Cond.holds : Cond → Flags → Bool
  | .eq, f => f.z
  | .ne, f => !f.z
  | .cs, f => f.c
  | .cc, f => !f.c
  | .hi, f => f.c && !f.z

/-- Operand size. -/
inductive Size
  | w
  | x
  deriving DecidableEq, Repr

def Size.bytes : Size → ℕ
  | .w => 4
  | .x => 8

/-- The low half of a register is what a `w` instruction sees and leaves. -/
def Size.narrow : Size → BitVec 64 → BitVec 64
  | .w, v => (v.setWidth 32).setWidth 64
  | .x, v => v

def Size.load : Size → Memory → Address → BitVec 64
  | .w, m, a => (m.read32 a).setWidth 64
  | .x, m, a => m.read64 a

def Size.compare : Size → BitVec 64 → BitVec 64 → Flags
  | .w, a, b => subFlags (a.setWidth 32) (b.setWidth 32)
  | .x, a, b => subFlags a b

/-- Immediates are as the instruction uses them; branch offsets count instructions. -/
inductive Instr
  | movz (s : Size) (rd : ℕ) (imm : BitVec 64) (shift : ℕ)
  | movk (s : Size) (rd : ℕ) (imm : BitVec 64) (shift : ℕ)
  | orr (s : Size) (rd rn rm : ℕ)
  | add (s : Size) (rd rn rm : ℕ)
  | sub (s : Size) (rd rn rm : ℕ)
  | cmp (s : Size) (rn rm : ℕ)
  | addImm (s : Size) (rd rn : ℕ) (imm : BitVec 64)
  | subImm (s : Size) (rd rn : ℕ) (imm : BitVec 64)
  | cmpImm (s : Size) (rn : ℕ) (imm : BitVec 64)
  | andImm (rd rn : ℕ) (imm : BitVec 64)
  | ubfx (rd rn : ℕ) (lsb width : ℕ)
  | csel (s : Size) (rd rn rm : ℕ) (cond : Cond)
  | ccmp (s : Size) (rn : ℕ) (imm : BitVec 64) (flags : Flags) (cond : Cond)
  | ldr (s : Size) (rt rn : ℕ) (offset : BitVec 64)
  | ldrPre (s : Size) (rt rn : ℕ) (offset : BitVec 64)
  | str (s : Size) (rt rn : ℕ) (offset : BitVec 64)
  | b (offset : ℤ)
  | bCond (cond : Cond) (offset : ℤ)
  | nop
  deriving DecidableEq, Repr

/-- What an instruction does to registers, flags and memory. -/
def Instr.exec : Instr → Core → Core
  | .movz _ rd imm shift, c => c.write rd (imm <<< shift)
  | .movk s rd imm shift, c =>
    c.write rd (s.narrow (c.read rd &&& ~~~((0xFFFF : BitVec 64) <<< shift) ||| imm <<< shift))
  | .orr s rd rn rm, c => c.write rd (s.narrow (c.read rn ||| c.read rm))
  | .add s rd rn rm, c => c.write rd (s.narrow (c.read rn + c.read rm))
  | .sub s rd rn rm, c => c.write rd (s.narrow (c.read rn - c.read rm))
  | .cmp s rn rm, c => { c with flags := s.compare (c.read rn) (c.read rm) }
  | .addImm s rd rn imm, c => c.writeSp rd (s.narrow (c.readSp rn + imm))
  | .subImm s rd rn imm, c => c.writeSp rd (s.narrow (c.readSp rn - imm))
  | .cmpImm s rn imm, c => { c with flags := s.compare (c.readSp rn) imm }
  | .andImm rd rn imm, c => c.writeSp rd (c.read rn &&& imm)
  | .ubfx rd rn lsb width, c =>
    c.write rd ((((c.read rn).setWidth 32).extractLsb' lsb width).setWidth 64)
  | .csel s rd rn rm cond, c =>
    c.write rd (s.narrow (if cond.holds c.flags then c.read rn else c.read rm))
  | .ccmp s rn imm flags cond, c =>
    { c with flags := if cond.holds c.flags then s.compare (c.read rn) imm else flags }
  | .ldr s rt rn offset, c => c.write rt (s.load c.mem (c.readSp rn + offset))
  | .ldrPre s rt rn offset, c =>
    (c.writeSp rn (c.readSp rn + offset)).write rt (s.load c.mem (c.readSp rn + offset))
  | .str s rt rn offset, c =>
    { c with mem := c.mem.write (c.readSp rn + offset) s.bytes (c.read rt) }
  | .b _, c => c
  | .bCond _ _, c => c
  | .nop, c => c

/-- How many instructions further the next one is. -/
def Instr.jump : Instr → Core → ℤ
  | .b offset, _ => offset
  | .bCond cond offset, c => if cond.holds c.flags then offset else 1
  | _, _ => 1

def decodeCond (bits : BitVec 4) : Option Cond :=
  if bits = 0 then some .eq
  else if bits = 1 then some .ne
  else if bits = 2 then some .cs
  else if bits = 3 then some .cc
  else if bits = 8 then some .hi
  else none

def decodeFlags (bits : BitVec 4) : Flags :=
  ⟨bits.getLsbD 3, bits.getLsbD 2, bits.getLsbD 1, bits.getLsbD 0⟩

/-- The mask of a logical immediate with a 64-bit element: `ones + 1` ones, rotated right. -/
def bitMask (ones rotate : ℕ) : BitVec 64 :=
  ((1 <<< (ones + 1)) - 1 : BitVec 64).rotateRight rotate

def decode (w : BitVec 32) : Option Instr :=
  let bits (lo n : ℕ) : BitVec n := w.extractLsb' lo n
  let s : Size := if w.getLsbD 31 then .x else .w
  let rd := (bits 0 5).toNat
  let rn := (bits 5 5).toNat
  let rm := (bits 16 5).toNat
  let imm12 : BitVec 64 := (bits 10 12).setWidth 64
  let imm9 : BitVec 64 := (bits 12 9).signExtend 64
  let imm16 : BitVec 64 := (bits 5 16).setWidth 64
  if w = 0xD503201F then some .nop
  else if bits 26 6 = 0b000101 then some (.b (bits 0 26).toInt)
  else if bits 24 8 = 0b01010100 ∧ bits 4 1 = 0 then
    (decodeCond (bits 0 4)).map (.bCond · (bits 5 19).toInt)
  -- a `w` move has no upper half to move to
  else if bits 23 8 = 0b10100101 ∧ (s = .x ∨ bits 22 1 = 0) then
    some (.movz s rd imm16 (16 * (bits 21 2).toNat))
  else if bits 23 8 = 0b11100101 ∧ (s = .x ∨ bits 22 1 = 0) then
    some (.movk s rd imm16 (16 * (bits 21 2).toNat))
  -- register operands are not shifted
  else if bits 21 10 = 0b0101010000 ∧ bits 10 6 = 0 then some (.orr s rd rn rm)
  else if bits 21 10 = 0b0001011000 ∧ bits 10 6 = 0 then some (.add s rd rn rm)
  else if bits 21 10 = 0b1001011000 ∧ bits 10 6 = 0 then some (.sub s rd rn rm)
  else if bits 21 10 = 0b1101011000 ∧ bits 10 6 = 0 ∧ rd = 31 then some (.cmp s rn rm)
  else if bits 22 9 = 0b001000100 then some (.addImm s rd rn imm12)
  else if bits 22 9 = 0b101000100 then some (.subImm s rd rn imm12)
  else if bits 22 9 = 0b111000100 ∧ rd = 31 then some (.cmpImm s rn imm12)
  else if bits 22 10 = 0b1001001001 ∧ bits 10 6 ≠ 0b111111 then
    some (.andImm rd rn (bitMask (bits 10 6).toNat (bits 16 6).toNat))
  else if bits 22 10 = 0b0101001100 ∧ bits 15 1 = 0 ∧ bits 21 1 = 0 ∧ bits 16 6 ≤ bits 10 6 then
    some (.ubfx rd rn (bits 16 6).toNat ((bits 10 6).toNat + 1 - (bits 16 6).toNat))
  else if bits 21 10 = 0b0011010100 ∧ bits 10 2 = 0 then
    (decodeCond (bits 12 4)).map (.csel s rd rn rm ·)
  else if bits 21 10 = 0b1111010010 ∧ bits 10 2 = 0b10 ∧ bits 4 1 = 0 then
    (decodeCond (bits 12 4)).map (.ccmp s rn ((bits 16 5).setWidth 64) (decodeFlags (bits 0 4)) ·)
  else if bits 31 1 = 1 then
    let s : Size := if w.getLsbD 30 then .x else .w
    let scaled : BitVec 64 := imm12 * s.bytes
    if bits 22 8 = 0b11100101 then some (.ldr s rd rn scaled)
    else if bits 22 8 = 0b11100100 then some (.str s rd rn scaled)
    -- with write-back, base and target must differ
    else if bits 21 9 = 0b111000010 ∧ bits 10 2 = 0b11 ∧ rd ≠ rn then some (.ldrPre s rd rn imm9)
    else if bits 21 9 = 0b111000000 ∧ bits 10 2 = 0 then some (.str s rd rn imm9)
    else none
  else none

structure State where
  pc : Address
  core : Core

def State.step (s : State) : Option State :=
  (decode (s.core.mem.read32 s.pc)).map fun i =>
    ⟨s.pc + BitVec.ofInt 64 (4 * i.jump s.core), i.exec s.core⟩

/-- The machine runs until it comes to the address `stop`, within `n` instructions. -/
def runUntil (stop : Address) : ℕ → State → Option State
  | 0, s => if s.pc = stop then some s else none
  | n + 1, s => if s.pc = stop then some s else s.step.bind (runUntil stop n)

/-- Running from `s` comes to `stop`, in the state `s'`. -/
def Executes (s : State) (stop : Address) (s' : State) : Prop :=
  ∃ n, runUntil stop n s = some s'

end Arm64
