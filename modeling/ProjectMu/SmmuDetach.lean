import ProjectMu.SmmuRegisters

/-!
# Detaching the streams of the SMMU

`armSmmuDetachAll` makes two passes. The first one goes through the stream match groups:
a valid group that matches a skip stream is kept and its context bank is tracked, any
other valid group is set to fault and invalidated. The second one frees every context
bank that is not tracked. At most 16 banks are tracked.
-/

namespace ProjectMu

def smrValid : BitVec 32 := 1 <<< 31
def smrMaskShift : ℕ := 16
def smrIdShift : ℕ := 0
def smrIdMask : BitVec 32 := 0xFFFF

def s2crCbndxShift : ℕ := 0
def s2crCbndxMask : BitVec 32 := 0xFF
def s2crTypeShift : ℕ := 16
def s2crTypeMask : BitVec 32 := 0x3
def s2crTypeFault : BitVec 32 := 2

def cbarVmidShift : ℕ := 0
def cbarVmidMask : BitVec 32 := 0xFF
def cbarTypeShift : ℕ := 16
def cbarTypeMask : BitVec 32 := 0x3
def cbarTypeS2Trans : BitVec 32 := 0
def cbarTypeS1TransS2Bypass : BitVec 32 := 1
def cbarTypeS1TransS2Fault : BitVec 32 := 2

variable (smmu : ArmSmmuV2Device)

def armSmmuDisableContextBank (bank : BitVec 32) (memory : Memory) : Memory :=
  let memory := armSmmuCbWrite64 smmu bank armSmmuCbTtbr0 0 memory
  let memory := armSmmuCbWrite64 smmu bank armSmmuCbTtbr1 0 memory
  let memory := armSmmuCbWrite smmu bank armSmmuCbTcr 0 memory
  let faultStatus := armSmmuCbRead smmu bank armSmmuCbFsr memory
  if faultStatus ≠ 0 then armSmmuCbWrite smmu bank armSmmuCbFsr faultStatus memory else memory

def armSmmuFreeContextBank (bank : BitVec 32) (memory : Memory) : Memory :=
  let memory := armSmmuDisableContextBank smmu bank memory
  let cbar := armSmmuGr1Read smmu (armSmmuGr1Cbar bank) memory
  let cbarType := (cbar >>> cbarTypeShift) &&& cbarTypeMask
  let cbarVmid := (cbar >>> cbarVmidShift) &&& cbarVmidMask
  if cbarType ≠ cbarTypeS2Trans ∧ cbarType ≠ cbarTypeS1TransS2Fault ∧
      (cbarType ≠ cbarTypeS1TransS2Bypass ∨ cbarVmid ≠ 0xFF) then
    armSmmuGr1Write smmu (armSmmuGr1Cbar bank)
      (((cbarTypeS1TransS2Bypass &&& cbarTypeMask) <<< cbarTypeShift) |||
        ((0xFF &&& cbarVmidMask) <<< cbarVmidShift)) memory
  else memory

/-- The skip streams are `none` for a null pointer. -/
def armSmmuSkipStream (streamMask maskedStreamId : BitVec 32)
    (skipStreams : Option (List (BitVec 16))) : Bool :=
  match skipStreams with
  | none => false
  | some streams => streams.any (fun stream =>
      stream.zeroExtend 32 &&& ~~~streamMask == maskedStreamId)

/-- The array `ContextBank[16]` with the number of its elements in use. -/
def trackContextBank (contextBank : List (BitVec 32)) (index : BitVec 32) : List (BitVec 32) :=
  let alreadyTracked := contextBank.any (· == index)
  if !alreadyTracked && contextBank.length < 16 then contextBank ++ [index] else contextBank

/-- One iteration of the first loop, on the memory and the tracked banks. -/
def detachStreamGroup (skipStreams : Option (List (BitVec 16)))
    (state : Memory × List (BitVec 32)) (i : BitVec 32) : Memory × List (BitVec 32) :=
  let memory := state.1
  let contextBank := state.2
  let smr := armSmmuGr0Read smmu (armSmmuGr0Smr i) memory
  if smr &&& smrValid = 0 then state
  else
    let s2cr := armSmmuGr0Read smmu (armSmmuGr0S2cr i) memory
    let contextBankIndex := (s2cr >>> s2crCbndxShift) &&& s2crCbndxMask
    let smrId := (smr >>> smrIdShift) &&& smrIdMask
    let smrMask := (smr >>> smrMaskShift) &&& smrIdMask
    let maskedSmrId := smrId &&& ~~~smrMask
    if armSmmuSkipStream smrMask maskedSmrId skipStreams then
      (memory, trackContextBank contextBank contextBankIndex)
    else
      let s2cr := ((s2crTypeFault &&& s2crTypeMask) <<< s2crTypeShift) |||
        ((contextBankIndex &&& s2crCbndxMask) <<< s2crCbndxShift)
      let memory := armSmmuGr0Write smmu (armSmmuGr0S2cr i) s2cr memory
      let smr := smr &&& ~~~smrValid
      (armSmmuGr0Write smmu (armSmmuGr0Smr i) smr memory, contextBank)

/-- One iteration of the second loop. -/
def freeUntrackedBank (contextBank : List (BitVec 32)) (memory : Memory) (i : BitVec 32) : Memory :=
  if contextBank.any (· == i) then memory else armSmmuFreeContextBank smmu i memory

def numSmrg (memory : Memory) : BitVec 32 :=
  (armSmmuGr0Read smmu armSmmuGr0Id0 memory >>> 0) &&& 0xFF

-- The TLB invalidation between the two loops touches none of these registers.
def armSmmuDetachAll (skipStreams : Option (List (BitVec 16))) (memory : Memory) : Memory :=
  let (memory, contextBank) :=
    (indices (numSmrg smmu memory)).foldl (detachStreamGroup smmu skipStreams) (memory, [])
  (indices smmu.numContextBanks).foldl (freeUntrackedBank smmu contextBank) memory

section Device

def armSmmuId1Pagesize : BitVec 32 := 1 <<< 31
def armSmmuId1Numcb : BitVec 32 := 0xFF

/-- The three bits of ID1 that give the number of pages. -/
def armSmmuId1Numpagendxb (id1 : BitVec 32) : ℕ := ((id1 &&& 0x70000000) >>> 28).toNat

theorem armSmmuId1Numpagendxb_le (id1 : BitVec 32) : armSmmuId1Numpagendxb id1 ≤ 7 := by
  unfold armSmmuId1Numpagendxb
  have hle : (id1 &&& 0x70000000).toNat ≤ 0x70000000 := by
    rw [BitVec.toNat_and]
    exact Nat.and_le_right
  rw [BitVec.toNat_ushiftRight, Nat.shiftRight_eq_div_pow]
  omega

def smmuDevice (baseAddress : BitVec 64) (id1 : BitVec 32) : ArmSmmuV2Device where
  baseAddress := baseAddress
  pageShift := if id1 &&& armSmmuId1Pagesize ≠ 0 then 16 else 12
  numPage := 1 <<< (armSmmuId1Numpagendxb id1 + 1)
  numContextBanks := id1 &&& armSmmuId1Numcb
  pageShift_eq := by
    split_ifs
    · exact Or.inr rfl
    · exact Or.inl rfl
  numContextBanks_le := by
    rw [BitVec.toNat_and]
    exact Nat.and_le_right
  two_le_numPage := by
    have hle := armSmmuId1Numpagendxb_le id1
    interval_cases armSmmuId1Numpagendxb id1 <;> decide
  numPage_le := by
    have hle := armSmmuId1Numpagendxb_le id1
    interval_cases armSmmuId1Numpagendxb id1 <;> decide

/-- `region` is the address of the memory region "SMMU", if there is one. -/
def armSmmuDetach (region : Option (BitVec 64)) (skipStreams : Option (List (BitVec 16)))
    (memory : Memory) : Memory :=
  match region with
  | none => memory
  | some baseAddress =>
    let id1 := mmioRead32 (baseAddress + armSmmuGr0Id1) memory
    armSmmuDetachAll (smmuDevice baseAddress id1) skipStreams memory

end Device

end ProjectMu
