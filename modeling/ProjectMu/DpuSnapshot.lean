import ProjectMu.DebugOutput
import ProjectMu.FixedText
import ProjectMu.MapMemoryRegion

/-!
# The snapshot of the display registers

The driver reads the registers of the display block and prints them, once when it is loaded and
once at `ReadyToBoot`. A read of a dark block resets the phone, so two guards come first: the
register window has to be mapped, and each pass starts with a register that tells whether the
block is alive. The registers are those of any device, whose state may change with a read and
between the steps of a boot.
-/

namespace ProjectMu.DpuSnapshot

open ByteCodec ByteRange FixedText MapMemoryRegion

def mdssBase : BitVec 32 := 0x0AE00000
def mdssSize : BitVec 32 := 0x00100000
def mdssHwVersion : BitVec 32 := mdssBase + 0x0
def mdssHwVersionExpected : BitVec 32 := 0xA0000000
def mdssHwVersionMask : BitVec 32 := 0xFF000000

def efiMemoryRuntime : BitVec 64 := 0x8000000000000000

def dpuTagEarly : String := "DPU0"
def dpuTagLate : String := "DPUS"

structure DpuRegion where
  name : String
  base : BitVec 32
  length : BitVec 32
  deriving DecidableEq, Repr

def mDpuRegions : List DpuRegion := [
  ⟨"MDSS", 0x0AE00000, 0x010⟩,
  ⟨"MDP_TOP", 0x0AE01000, 0x040⟩,
  ⟨"DSPP_TOP", 0x0AE01300, 0x080⟩,
  ⟨"CTL_0", 0x0AE16000, 0x060⟩,
  ⟨"CTL_1", 0x0AE17000, 0x060⟩,
  ⟨"LM_0", 0x0AE45000, 0x040⟩,
  ⟨"LM_1", 0x0AE46000, 0x040⟩,
  ⟨"SSPP_VIG0", 0x0AE05000, 0x060⟩,
  ⟨"SSPP_VIG1", 0x0AE07000, 0x060⟩,
  ⟨"SSPP_VIG2", 0x0AE09000, 0x060⟩,
  ⟨"SSPP_VIG3", 0x0AE0B000, 0x060⟩,
  ⟨"SSPP_DMA0", 0x0AE25000, 0x060⟩,
  ⟨"SSPP_DMA1", 0x0AE27000, 0x060⟩,
  ⟨"SSPP_DMA2", 0x0AE29000, 0x060⟩,
  ⟨"SSPP_DMA3", 0x0AE2B000, 0x060⟩,
  ⟨"SSPP_DMA4", 0x0AE2D000, 0x060⟩,
  ⟨"SSPP_DMA5", 0x0AE2F000, 0x060⟩,
  ⟨"CTL_0_FULL", 0x0AE16000, 0x0A0⟩,
  ⟨"INTF_1", 0x0AE36000, 0x080⟩,
  ⟨"PINGPONG_0", 0x0AE6A000, 0x040⟩,
  ⟨"PINGPONG_1", 0x0AE6B000, 0x040⟩,
  ⟨"SPR_0", 0x0AE6A400, 0x100⟩,
  ⟨"SPR_1", 0x0AE6B400, 0x100⟩,
  ⟨"DSC_0_ENC0", 0x0AE81100, 0x0A0⟩,
  ⟨"DSC_0_ENC1", 0x0AE81200, 0x0A0⟩,
  ⟨"DSC_0_CTL", 0x0AE81F00, 0x040⟩,
  ⟨"DSI0_CTRL", 0x0AE94000, 0x300⟩]

/-- What the print library writes for numbers, the end of a line and status codes. -/
structure PrintLib where
  numerals : Numerals 16 Byte
  newLine : List Byte
  statusText : EfiError → List Byte

namespace PrintLib

variable (print : PrintLib)

/-- `%x` -/
def hex (n : ℕ) : List Byte :=
  if n = 0 then [print.numerals.digit 0] else ((Nat.digits 16 n).map print.numerals.digit).reverse

/-- `%d` -/
def decimal (n : ℕ) : List Byte :=
  if n = 0 then [print.numerals.digit 0] else ((Nat.digits 10 n).map print.numerals.digit).reverse

/-- `%08x` -/
def hex8 (word : BitVec 32) : List Byte := print.numerals.number 8 word.toNat

end PrintLib

abbrev RegisterRead := BitVec 32 × BitVec 32

/-- The device, the memory space, the registers read so far, the text printed so far and whether
the handler is registered. -/
structure SnapshotState (δ : Type*) where
  device : δ
  memorySpace : MemorySpace
  reads : List RegisterRead
  log : List Byte
  armed : Bool

def SnapshotState.debug {δ : Type*} (s : SnapshotState δ) (text : List Byte) : SnapshotState δ :=
  { s with log := s.log ++ text }

section Driver

variable {δ : Type*} (services : MemoryServices) (print : PrintLib)
  (mmioRead32 : BitVec 32 → δ → BitVec 32 × δ)

def mapMdssWindow (s : SnapshotState δ) : Except EfiError Unit × SnapshotState δ :=
  if (s.memorySpace mdssBase.toNat).map MemorySpaceDescriptor.gcdMemoryType =
      some .memoryMappedIo then (.ok (), s)
  else
    match services.addMemorySpace .memoryMappedIo (mdssBase.setWidth 64) (mdssSize.setWidth 64)
        (efiMemoryUC ||| efiMemoryRuntime) s.memorySpace with
    | .error e =>
      (.error e, s.debug (asciiName "DpuSnapshot: AddMemorySpace: " ++ print.statusText e ++
        print.newLine))
    | .ok memorySpace =>
      match services.setMemorySpaceAttributes (mdssBase.setWidth 64) (mdssSize.setWidth 64)
          efiMemoryUC memorySpace with
      | .error e =>
        (.error e, { s with memorySpace := memorySpace }.debug
          (asciiName "DpuSnapshot: SetMemorySpaceAttributes: " ++ print.statusText e ++
            print.newLine))
      | .ok memorySpace => (.ok (), { s with memorySpace := memorySpace })

def readRegister (address : BitVec 32) (s : SnapshotState δ) : BitVec 32 × SnapshotState δ :=
  ((mmioRead32 address s.device).1,
    { s with
      device := (mmioRead32 address s.device).2
      reads := s.reads ++ [(address, (mmioRead32 address s.device).1)] })

def lineText (tag : String) (address word0 word1 word2 word3 : BitVec 32) : List Byte :=
  asciiName tag ++ asciiName " " ++ print.hex8 address ++ asciiName ": " ++ print.hex8 word0 ++
    asciiName " " ++ print.hex8 word1 ++ asciiName " " ++ print.hex8 word2 ++ asciiName " " ++
    print.hex8 word3 ++ print.newLine

/-- One line of a region. The sum of all words is kept. -/
def dumpLine (tag : String) (address : BitVec 32) (acc : BitVec 32 × SnapshotState δ) :
    BitVec 32 × SnapshotState δ :=
  let (word0, s) := readRegister mmioRead32 (address + 0x0) acc.2
  let (word1, s) := readRegister mmioRead32 (address + 0x4) s
  let (word2, s) := readRegister mmioRead32 (address + 0x8) s
  let (word3, s) := readRegister mmioRead32 (address + 0xC) s
  (acc.1 + (word0 + word1 + word2 + word3),
    s.debug (lineText print tag address word0 word1 word2 word3))

/-- Where the lines of a region start. -/
def DpuRegion.lines (region : DpuRegion) : List (BitVec 32) :=
  (List.range (region.length.toNat / 16)).map fun i => region.base + BitVec.ofNat 32 (16 * i)

def skipText (tag : String) (region : DpuRegion) : List Byte :=
  asciiName tag ++ asciiName " skip " ++ asciiName region.name ++ asciiName ": length 0x" ++
    print.hex region.length.toNat ++ asciiName " is not a multiple of 16" ++ print.newLine

def headText (tag : String) (region : DpuRegion) : List Byte :=
  asciiName tag ++ asciiName " === " ++ asciiName region.name ++ asciiName " @ 0x" ++
    print.hex8 region.base ++ asciiName " len 0x" ++ print.hex region.length.toNat ++
    print.newLine

def dumpRegion (tag : String) (region : DpuRegion) (s : SnapshotState δ) :
    BitVec 32 × SnapshotState δ :=
  if region.length = 0 ∨ region.length % 16 ≠ 0 then (0, s.debug (skipText print tag region))
  else
    region.lines.foldl (fun acc address => dumpLine print mmioRead32 tag address acc)
      (0, s.debug (headText print tag region))

def MdssLive (hwVersion : BitVec 32) : Prop :=
  hwVersion &&& mdssHwVersionMask = mdssHwVersionExpected &&& mdssHwVersionMask

instance (hwVersion : BitVec 32) : Decidable (MdssLive hwVersion) :=
  inferInstanceAs (Decidable (_ = _))

def abortText (tag : String) (hwVersion : BitVec 32) : List Byte :=
  asciiName tag ++ asciiName " ABORT: MDSS is dark, HW_VERSION = 0x" ++ print.hex8 hwVersion ++
    asciiName " (expected 0x" ++ print.hex8 mdssHwVersionExpected ++ asciiName ")" ++ print.newLine

def beginText (tag : String) (hwVersion : BitVec 32) : List Byte :=
  asciiName tag ++ asciiName " BEGIN v1 HW_VERSION=0x" ++ print.hex8 hwVersion ++
    asciiName " regions=" ++ print.decimal mDpuRegions.length ++ print.newLine

def endText (tag : String) (sum : BitVec 32) : List Byte :=
  asciiName tag ++ asciiName " END sum=0x" ++ print.hex8 sum ++ print.newLine

/-- The regions one behind the other, with the sum over all of them. -/
def dumpRegions (tag : String) (regions : List DpuRegion) (acc : BitVec 32 × SnapshotState δ) :
    BitVec 32 × SnapshotState δ :=
  regions.foldl (fun acc region =>
    let dumped := dumpRegion print mmioRead32 tag region acc.2
    (acc.1 + dumped.1, dumped.2)) acc

def dumpAllRegions (tag : String) (s : SnapshotState δ) : SnapshotState δ :=
  let first := readRegister mmioRead32 mdssHwVersion s
  if MdssLive first.1 then
    let dumped := dumpRegions print mmioRead32 tag mDpuRegions
      (0, first.2.debug (beginText print tag first.1))
    dumped.2.debug (endText print tag dumped.1)
  else first.2.debug (abortText print tag first.1)

/-- The event is closed first. -/
def onReadyToBoot (s : SnapshotState δ) : SnapshotState δ :=
  dumpAllRegions print mmioRead32 dpuTagLate { s with armed := false }

/-- `createEvent` is what `EfiCreateEventReadyToBootEx` returns. -/
def dpuSnapshotEntry (createEvent : Except EfiError Unit) (s : SnapshotState δ) : SnapshotState δ :=
  match mapMdssWindow services print s with
  | (.error e, s) =>
    s.debug (asciiName dpuTagEarly ++ asciiName " ABORT: MDSS window not mapped (" ++
      print.statusText e ++ asciiName "), no registers read" ++ print.newLine)
  | (.ok _, s) =>
    let s := dumpAllRegions print mmioRead32 dpuTagEarly s
    match createEvent with
    | .error e =>
      s.debug (asciiName dpuTagEarly ++ asciiName " ReadyToBoot event: " ++ print.statusText e ++
        asciiName ", so the early pass is all there will be" ++ print.newLine)
    | .ok _ => { s with armed := true }

/-- What happens to the driver behind its entry point: `ReadyToBoot` is signalled, someone else
prints, or the device goes on by itself. -/
inductive BootEvent (δ : Type*)
  | readyToBoot
  | print (text : List Byte)
  | device (change : δ → δ)

def bootStep (s : SnapshotState δ) : BootEvent δ → SnapshotState δ
  | .readyToBoot => if s.armed then onReadyToBoot print mmioRead32 s else s
  | .print text => s.debug text
  | .device change => { s with device := change s.device }

def bootRun (s : SnapshotState δ) (events : List (BootEvent δ)) : SnapshotState δ :=
  events.foldl (bootStep print mmioRead32) s

end Driver

end ProjectMu.DpuSnapshot
