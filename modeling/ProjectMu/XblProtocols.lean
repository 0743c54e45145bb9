import ProjectMu.AccessLog
import ProjectMu.Arm64Machine

/-!
# The protocols of XBL

XBL registers its protocols in functions whose code is still in memory. The scan looks for
such a function and then follows its address computations, up to its return instruction, for
the GUID of a protocol.
-/

namespace ProjectMu

open AccessLog Arm64

/-- Instruction words that are read, and GUIDs that are compared by an instruction. -/
inductive XblAccess
  | read (location : Address)
  | compare (location : Address) (register : ℕ) (guid : Address)
  deriving DecidableEq

def parseAdrpInstruction (instruction : BitVec 32) (instructionLocation : Address) :
    Address × ℕ :=
  let immHi := instruction >>> 5 &&& 0x7FFFF
  let immLo := instruction >>> 29 &&& 0x3
  let imm21 := immHi <<< 2 ||| immLo
  let imm21 := if imm21 &&& 0x100000 ≠ 0 then imm21 ||| 0xFFE00000 else imm21
  ((instructionLocation &&& ~~~(0xFFF : Address)) + imm21.signExtend 64 <<< 12,
    (instruction &&& 0x1F).toNat)

/-- The offset, the source register and the target register. -/
def parseAddInstruction (instruction : BitVec 32) : BitVec 32 × ℕ × ℕ :=
  (instruction >>> 10 &&& 0xFFF, (instruction >>> 5 &&& 0x1F).toNat, (instruction &&& 0x1F).toNat)

def compareGuid (mem : Arm64.Memory) (guid : Address) (protocolGuid : BitVec 128) : Bool :=
  mem.read64 (guid + 8) ++ mem.read64 guid == protocolGuid

/-- The loop over the instructions of a function. -/
structure HobFunction where
  current : Address
  adrpRegValue : ℕ → BitVec 64
  protocolAddress : Address
  guidMatched : Bool

/-- The end of a round, `continue` included. -/
def HobFunction.next (f : HobFunction) : HobFunction := { f with current := f.current + 4 }

def isAdrpInstruction (instruction : BitVec 32) : Bool := instruction &&& 0x9F000000 == 0x90000000

def isAddInstruction (instruction : BitVec 32) : Bool := instruction &&& 0xFFC00000 == 0x91000000

def saveAdrpValue (f : HobFunction) (instruction : BitVec 32) : HobFunction :=
  if isAdrpInstruction instruction then
    let (baseAddress, register) := parseAdrpInstruction instruction f.current
    { f with adrpRegValue := Function.update f.adrpRegValue register baseAddress }
  else f

def appendAddressOffset (mem : Arm64.Memory) (protocolGuid : BitVec 128) (f : HobFunction)
    (instruction : BitVec 32) : Logged XblAccess HobFunction :=
  let (addressOffset, _, targetRegister) := parseAddInstruction instruction
  if f.adrpRegValue targetRegister = 0 then pure f
  else
    let value := f.adrpRegValue targetRegister + addressOffset.setWidth 64
    let f := { f with adrpRegValue := Function.update f.adrpRegValue targetRegister value }
    access (.compare f.current targetRegister value)
      (if compareGuid mem value protocolGuid then { f with guidMatched := true }
      else { f with protocolAddress := value })

/-- What the function follows of an instruction other than the return. -/
def followHobInstruction (mem : Arm64.Memory) (protocolGuid : BitVec 128) (f : HobFunction)
    (instruction : BitVec 32) : Logged XblAccess HobFunction :=
  if isAddInstruction instruction then
    appendAddressOffset mem protocolGuid (saveAdrpValue f instruction) instruction
  else pure (saveAdrpValue f instruction)

def parseHobInstruction (mem : Arm64.Memory) (protocolGuid : BitVec 128) (f : HobFunction) :
    Logged XblAccess (Next HobFunction Address) := do
  let instruction ← access (.read f.current) (mem.read32 f.current)
  if instruction = 0xD65F03C0 then
    pure (.done (if f.guidMatched then f.protocolAddress else 0))
  else
    let f ← followHobInstruction mem protocolGuid f instruction
    pure (.more f.next)

def parseHobFunction (mem : Arm64.Memory) (n : ℕ) (functionStart : Address)
    (protocolGuid : BitVec 128) : Logged XblAccess (Option Address) :=
  loop (fun _ => parseHobInstruction mem protocolGuid) n ⟨functionStart, fun _ => 0, 0, false⟩

def gEfiSchedulerInterfaceHobGuid : BitVec 128 := 0xF8EBF8781763968749EF56D78EC2BD8D

def gEfiDtbExtensionHobGuid : BitVec 128 := 0xA7F62F6E474BEDBB11EB61F63A06E1E8

/-- The loop over the Reserved FD Region, with the addresses found so far. -/
structure XblScan where
  current : Address
  schedulerInterfaceAddr : Address
  dtbExtensionAddr : Address

def XblScan.next (s : XblScan) : XblScan := { s with current := s.current + 4 }

def XblScan.addresses (s : XblScan) : Address × Address :=
  (s.schedulerInterfaceAddr, s.dtbExtensionAddr)

/-- The function is only looked at for an address that is still 0. -/
def locateProtocol (mem : Arm64.Memory) (n : ℕ) (functionStart : Address)
    (protocolGuid : BitVec 128) (address : Address) : Logged XblAccess (Option Address) :=
  if address = 0 then parseHobFunction mem n functionStart protocolGuid else pure (some address)

def locateProtocols (mem : Arm64.Memory) (n : ℕ) (s : XblScan) :
    Logged XblAccess (Next XblScan (Address × Address)) := do
  let scheduler ← locateProtocol mem n s.current gEfiSchedulerInterfaceHobGuid
    s.schedulerInterfaceAddr
  match scheduler with
  | none => pure .out
  | some scheduler =>
    let dtb ← locateProtocol mem n s.current gEfiDtbExtensionHobGuid s.dtbExtensionAddr
    match dtb with
    | none => pure .out
    | some dtb => pure (.more (XblScan.next ⟨s.current, scheduler, dtb⟩))

/-- A doubleword is read as the two instruction words that it holds. -/
def scanXblHob (mem : Arm64.Memory) (limit : Address) (n : ℕ) (s : XblScan) :
    Logged XblAccess (Next XblScan (Address × Address)) :=
  if s.current < limit then do
    let low ← access (.read s.current) (mem.read32 s.current)
    let high ← access (.read (s.current + 4)) (mem.read32 (s.current + 4))
    if (high ++ low : BitVec 64) ≠ 0xA9017BFDD10083FF then pure (.more s.next)
    else
      let eighth ← access (.read (s.current + 0x20)) (mem.read32 (s.current + 0x20))
      if eighth &&& 0xFFFFFFE0 ≠ 0x52800100 then pure (.more s.next)
      else locateProtocols mem n s
  else pure (.done s.addresses)

/-- The scan of a region, for the addresses that are not known yet. -/
def getXblHobAddresses (mem : Arm64.Memory) (n : ℕ) (address length : BitVec 64)
    (schedulerInterfaceAddr dtbExtensionAddr : Address) :
    Logged XblAccess (Option (Address × Address)) :=
  if address = 0 ∧ length = 0 then pure (some (schedulerInterfaceAddr, dtbExtensionAddr))
  else loop (scanXblHob mem (address + length)) n
    ⟨address, schedulerInterfaceAddr, dtbExtensionAddr⟩

end ProjectMu
