import Mathlib
import ProjectMu.Arm64Program
import ProjectMu.WordLoop

/-!
# Calls and system registers

The machine with calls, pairs of registers and two system registers: MPIDR_EL1, which is only
read, and ICC_SGI1R_EL1, whose writes send interrupts and are logged.
-/

namespace Arm64

/-- A core with its MPIDR_EL1 and the values written to ICC_SGI1R_EL1 so far. -/
structure Processor where
  core : Core
  mpidr : BitVec 64
  sgi1r : List (BitVec 64)

/-- The distance of a BL is in bytes, the other branch offsets count instructions. -/
inductive SysInstr
  | plain (i : Instr)
  | orrImm (rd rn : ℕ) (imm : BitVec 64)
  | cmpLsr (rn rm shift : ℕ)
  | lsl (rd rn shift : ℕ)
  | stpPre (rt rt2 rn : ℕ) (offset : BitVec 64)
  | ldpPost (rt rt2 rn : ℕ) (offset : BitVec 64)
  | tbz (rt bit : ℕ) (offset : ℤ)
  | cbnz (s : Size) (rt : ℕ) (offset : ℤ)
  | bl (distance : BitVec 64)
  | ret (rn : ℕ)
  | mrsMpidr (rt : ℕ)
  | msrSgi1r (rt : ℕ)
  | dsb
  deriving DecidableEq, Repr

namespace SysInstr

/-- What an instruction at the address `pc` does. -/
def exec (pc : Address) : SysInstr → Processor → Processor
  | plain i, p => { p with core := i.exec p.core }
  | orrImm rd rn imm, p => { p with core := p.core.writeSp rd (p.core.read rn ||| imm) }
  | cmpLsr rn rm shift, p =>
    { p with core := { p.core with flags := subFlags (p.core.read rn) (p.core.read rm >>> shift) } }
  | lsl rd rn shift, p => { p with core := p.core.write rd (p.core.read rn <<< shift) }
  | stpPre rt rt2 rn offset, p =>
    let a := p.core.readSp rn + offset
    let mem := (p.core.mem.write a 8 (p.core.read rt)).write (a + 8) 8 (p.core.read rt2)
    { p with core := (p.core.writeSp rn a).withMem mem }
  | ldpPost rt rt2 rn offset, p =>
    let a := p.core.readSp rn
    let core := (p.core.write rt (p.core.mem.read64 a)).write rt2 (p.core.mem.read64 (a + 8))
    { p with core := core.writeSp rn (a + offset) }
  | bl _, p => { p with core := p.core.write 30 (pc + 4) }
  | mrsMpidr rt, p => { p with core := p.core.write rt p.mpidr }
  | msrSgi1r rt, p => { p with sgi1r := p.sgi1r ++ [p.core.read rt] }
  | tbz .., p | cbnz .., p | ret _, p | dsb, p => p

/-- The address of the instruction after one at the address `pc`. -/
def next (pc : Address) : SysInstr → Core → Address
  | plain i, c => pc + BitVec.ofInt 64 (4 * i.jump c)
  | tbz rt bit offset, c =>
    if (c.read rt).getLsbD bit then pc + 4 else pc + BitVec.ofInt 64 (4 * offset)
  | cbnz s rt offset, c =>
    if s.narrow (c.read rt) = 0 then pc + 4 else pc + BitVec.ofInt 64 (4 * offset)
  | bl distance, _ => pc + distance
  | ret rn, c => c.read rn
  | _, _ => pc + 4

end SysInstr

def decodeSys (w : BitVec 32) : Option SysInstr :=
  let bits (lo n : ℕ) : BitVec n := w.extractLsb' lo n
  let rd := (bits 0 5).toNat
  let rn := (bits 5 5).toNat
  let rt2 := (bits 10 5).toNat
  let immr := (bits 16 6).toNat
  let imms := (bits 10 6).toNat
  let imm7 : BitVec 64 := (bits 15 7).signExtend 64
  if w = 0xD5033F9F then some .dsb
  else if bits 26 6 = 0b100101 then some (.bl ((bits 0 26 ++ 0#2).signExtend 64))
  else if bits 10 22 = 0b1101011001011111000000 ∧ bits 0 5 = 0 then some (.ret rn)
  else if bits 5 27 = 0b110101010011100000000000101 then some (.mrsMpidr rd)
  else if bits 5 27 = 0b110101010001100011001011101 then some (.msrSgi1r rd)
  else if bits 25 6 = 0b011011 ∧ bits 24 1 = 0 then
    some (.tbz rd (bits 31 1 ++ bits 19 5).toNat (bits 5 14).toInt)
  else if bits 25 6 = 0b011010 ∧ bits 24 1 = 1 then
    some (.cbnz (if w.getLsbD 31 then .x else .w) rd (bits 5 19).toInt)
  -- with write-back, the base must differ from the pair
  else if bits 22 10 = 0b1010100110 ∧ (rn = 31 ∨ rd ≠ rn ∧ rt2 ≠ rn) then
    some (.stpPre rd rt2 rn (imm7 * 8))
  else if bits 22 10 = 0b1010100011 ∧ rd ≠ rt2 ∧ (rn = 31 ∨ rd ≠ rn ∧ rt2 ≠ rn) then
    some (.ldpPost rd rt2 rn (imm7 * 8))
  else if bits 22 10 = 0b1011001001 ∧ bits 10 6 ≠ 0b111111 then
    some (.orrImm rd rn (bitMask imms immr))
  else if bits 21 11 = 0b11101011010 ∧ rd = 31 then some (.cmpLsr rn (bits 16 5).toNat imms)
  else if bits 22 10 = 0b1101001101 ∧ imms + 1 = immr then some (.lsl rd rn (63 - imms))
  else (decode w).map .plain

structure SysState where
  pc : Address
  processor : Processor

def SysState.step (s : SysState) : Option SysState :=
  (decodeSys (s.processor.core.mem.read32 s.pc)).map fun i =>
    ⟨i.next s.pc s.processor.core, i.exec s.pc s.processor⟩

/-- A run that executes only instructions at addresses in `A`. -/
inductive RunsIn (A : Set Address) : SysState → SysState → Prop
  | refl (s : SysState) : RunsIn A s s
  | step {s t u : SysState} (hin : s.pc ∈ A) (hstep : s.step = some t) (rest : RunsIn A t u) :
    RunsIn A s u

variable {A : Set Address} {s t u : SysState}

theorem RunsIn.trans (h : RunsIn A s t) (h' : RunsIn A t u) : RunsIn A s u := by
  induction h with
  | refl => exact h'
  | step hin hstep _ ih => exact .step hin hstep (ih h')

/-- The words from an address on decode to a program. -/
def HoldsProgram (m : Memory) (pc : Address) (p : List SysInstr) : Prop :=
  ∀ i instr, p[i]? = some instr → decodeSys (m.read32 (word pc i)) = some instr

/-- The bytes from an address on. -/
def range (a : Address) (n : ℕ) : Set Address := {x | (x - a).toNat < n}

theorem add_mem_range {a : Address} {j n : ℕ} (hj : j < n) (hn : n < 2 ^ 64) :
    a + BitVec.ofNat 64 j ∈ range a n := by
  change (a + BitVec.ofNat 64 j - a).toNat < n
  rw [offset_sub, BitVec.toNat_ofNat, Nat.mod_eq_of_lt (by omega)]
  exact hj

/-- Ranges that start behind each other's end. -/
theorem disjoint_range {a b : Address} {n k : ℕ} (h : n ≤ (b - a).toNat) (h' : k ≤ (a - b).toNat) :
    Disjoint (range a n) (range b k) := by
  rw [Set.disjoint_left]
  intro x hx hx'
  change (x - a).toNat < n at hx
  change (x - b).toNat < k at hx'
  bv_omega

theorem word_add_mem_range {pc : Address} {i j n : ℕ} (hj : 4 * i + j < n) (hn : n < 2 ^ 64) :
    word pc i + BitVec.ofNat 64 j ∈ range pc n := by
  rw [word, BitVec.add_assoc, ← BitVec.ofNat_add]
  exact add_mem_range hj hn

/-- The addresses of the instructions of a program. -/
def programAddresses (pc : Address) (p : List SysInstr) : Set Address :=
  {a | ∃ i < p.length, a = word pc i}

variable {p : List SysInstr} {pc : Address} {i : ℕ} {instr : SysInstr} {cpu cpu' : Processor}

theorem HoldsProgram.congr {m m' : Memory} (h : HoldsProgram m pc p) (hfit : 4 * p.length < 2 ^ 64)
    (heq : ∀ a ∈ range pc (4 * p.length), m' a = m a) : HoldsProgram m' pc p := by
  intro i instr hfetch
  obtain ⟨hlt, -⟩ := List.getElem?_eq_some_iff.mp hfetch
  have hread : m'.read32 (word pc i) = m.read32 (word pc i) :=
    Memory.read32_congr fun j hj => heq _ (word_add_mem_range (by omega) hfit)
  rw [hread]
  exact h i instr hfetch

/-- One instruction of a program in memory. -/
theorem runsIn_instr (hcode : HoldsProgram cpu.core.mem pc p) (hfetch : p[i]? = some instr)
    {a : Address} (hnext : instr.next (word pc i) cpu.core = a)
    (hexec : instr.exec (word pc i) cpu = cpu') :
    RunsIn (programAddresses pc p) ⟨word pc i, cpu⟩ ⟨a, cpu'⟩ := by
  obtain ⟨hlt, -⟩ := List.getElem?_eq_some_iff.mp hfetch
  refine .step ⟨i, hlt, rfl⟩ ?_ (.refl _)
  rw [SysState.step, hcode i instr hfetch, Option.map_some, hnext, hexec]

/-- Instructions that neither branch nor store. -/
def SysInstr.IsStraight : SysInstr → Bool
  | .plain i => i.IsStraight
  | .stpPre .. | .tbz .. | .cbnz .. | .bl _ | .ret _ => false
  | _ => true

def SysInstr.execAll : Address → List SysInstr → Processor → Processor
  | _, [], cpu => cpu
  | pc, i :: is, cpu => execAll (pc + 4) is (i.exec pc cpu)

theorem Core.write_mem {c : Core} {r : ℕ} {v : BitVec 64} : (c.write r v).mem = c.mem := by
  rw [Core.write]
  split <;> rfl

theorem Core.writeSp_mem {c : Core} {r : ℕ} {v : BitVec 64} : (c.writeSp r v).mem = c.mem := by
  rw [Core.writeSp]
  split <;> rfl

theorem SysInstr.exec_mpidr : (instr.exec pc cpu).mpidr = cpu.mpidr := by
  cases instr <;> rfl

/-- Only a write of ICC_SGI1R_EL1 is logged. -/
theorem SysInstr.exec_sgi1r (h : ∀ rt, instr ≠ .msrSgi1r rt) :
    (instr.exec pc cpu).sgi1r = cpu.sgi1r := by
  cases instr with
  | msrSgi1r rt => exact absurd rfl (h rt)
  | _ => rfl

theorem SysInstr.next_of_isStraight (h : instr.IsStraight) (c : Core) :
    instr.next pc c = pc + 4 := by
  cases instr with
  | plain i =>
    rw [SysInstr.next, Instr.jump_of_isStraight h]
    rfl
  | stpPre | tbz | cbnz | bl | ret => cases h
  | _ => rfl

theorem SysInstr.exec_mem (h : instr.IsStraight) : (instr.exec pc cpu).core.mem = cpu.core.mem := by
  cases instr with
  | plain i => exact Instr.exec_mem h
  | orrImm => exact Core.writeSp_mem
  | lsl | mrsMpidr => exact Core.write_mem
  | ldpPost => exact Core.writeSp_mem.trans (Core.write_mem.trans Core.write_mem)
  | cmpLsr | msrSgi1r | dsb => rfl
  | stpPre | tbz | cbnz | bl | ret => cases h

theorem SysInstr.execAll_mem {block : List SysInstr} (h : block.all SysInstr.IsStraight) :
    (SysInstr.execAll pc block cpu).core.mem = cpu.core.mem := by
  induction block generalizing pc cpu with
  | nil => rfl
  | cons instr block ih =>
    rw [List.all_cons, Bool.and_eq_true] at h
    exact (ih h.2).trans (SysInstr.exec_mem h.1)

/-- Straight instructions run one after the other. -/
theorem runsIn_straight (block : List SysInstr) (hcode : HoldsProgram cpu.core.mem pc p)
    (hblock : (p.drop i).take block.length = block) (h : block.all SysInstr.IsStraight) :
    RunsIn (programAddresses pc p) ⟨word pc i, cpu⟩
      ⟨word pc (i + block.length), SysInstr.execAll (word pc i) block cpu⟩ := by
  induction block generalizing i cpu with
  | nil => exact .refl _
  | cons instr block ih =>
    have hfetch : p[i]? = some instr := by
      have hfirst := congrArg (·[0]?) hblock
      simpa using hfirst
    have hrest : (p.drop (i + 1)).take block.length = block := by
      have htail := congrArg (List.drop 1) hblock
      rwa [List.length_cons, List.drop_take, Nat.add_sub_cancel, List.drop_drop] at htail
    rw [List.all_cons, Bool.and_eq_true] at h
    obtain ⟨hinstr, hall⟩ := h
    have hstep : RunsIn (programAddresses pc p) ⟨word pc i, cpu⟩
        ⟨word pc (i + 1), instr.exec (word pc i) cpu⟩ :=
      runsIn_instr hcode hfetch (by rw [SysInstr.next_of_isStraight hinstr, word_succ]) rfl
    have hcode' : HoldsProgram (instr.exec (word pc i) cpu).core.mem pc p := by
      rw [SysInstr.exec_mem hinstr]
      exact hcode
    have hruns := ih hcode' hrest hall
    rw [Nat.add_right_comm, Nat.add_assoc, ← word_succ] at hruns
    rw [← word_succ] at hstep
    exact hstep.trans hruns

end Arm64
