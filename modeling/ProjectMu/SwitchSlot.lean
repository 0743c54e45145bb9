import ProjectMu.GptCommitLoop
import ProjectMu.GptPairs

/-!
# The slot switch from end to end

`switchSlotEntry` loads the tables, detects the slot, switches all pairs in memory, asks
for confirmation, writes the tables and sets the boot LU. A failure while writing or
while setting the boot LU rolls the tables back and keeps its own status.
-/

namespace ProjectMu

open ByteCodec CrashLogic

def ufsBootLuSlotA : BitVec 32 := 1
def ufsBootLuSlotB : BitVec 32 := 2

def scanUp : BitVec 16 := 0x01
def scanDown : BitVec 16 := 0x02
def scanEsc : BitVec 16 := 0x17

/-- The answers of all calls made after the confirmation: those of the commit and of the
rollback on each device, those of `LocateProtocol` and `SetBootLU`, and the boot LU that a
failing `SetBootLU` leaves. -/
structure UpdatePlan where
  commit : ℕ → CallPlan
  rollback : ℕ → CallPlan
  locateCardInfo : Option EfiError
  setBootLu : Option EfiError
  failedBootLu : BitVec 32 → BitVec 32

def bootLuOf (targetSlot : AbSlot) : BitVec 32 :=
  if targetSlot = .a then ufsBootLuSlotA else ufsBootLuSlotB

def setUfsBootLu (plan : UpdatePlan) (targetSlot : AbSlot) : EfiM Unit :=
  match plan.locateCardInfo with
  | some e => throw (.status e)
  | none => Proc.ofFun (fun w =>
    match plan.setBootLu with
    | some e => (.error (.status e), { w with bootLu := plan.failedBootLu w.bootLu })
    | none => (.ok (), { w with bootLu := bootLuOf targetSlot }))

/-- Run the rollback where the step fails with a status, and keep that status. -/
def orRollback (c rollback : EfiM Unit) : EfiM Unit :=
  Proc.ofFun (fun w =>
    match exec c w with
    | (.error (.status e), w') =>
      match exec rollback w' with
      | (.ok _, w'') => (.error (.status e), w'')
      | result => result
    | result => result)

/-- The scan codes of the key presses, read until one of them decides. -/
def scanKeys : List (BitVec 16) → Except Stop Unit × List (BitVec 16)
  | [] => (.error .awaitingKey, [])
  | key :: keys =>
    if key = scanUp then (.ok (), keys)
    else if key = scanDown ∨ key = scanEsc then (.error (.status .aborted), keys)
    else scanKeys keys

def waitForConfirmation : EfiM Unit :=
  Proc.ofFun (fun w => ((scanKeys w.keys).1, { w with keys := (scanKeys w.keys).2 }))

/-- After any other error than a cancel the application waits for one more key. -/
def exitOnKey (c : EfiM Unit) : EfiM Unit :=
  Proc.ofFun (fun w =>
    match exec c w with
    | (.error (.status e), w') =>
      (.error (.status e), if e = .aborted then w' else { w' with keys := w'.keys.tail })
    | result => result)

variable (crc32 : List Byte → BitVec 32)

/-- The part of `switchSlotEntry` after the confirmation. -/
def updateStorages (plan : UpdatePlan) (targetSlot : AbSlot) (disks : List GptDisk) :
    EfiM Unit := do
  let rollback := rollbackModifiedGptDisks crc32 plan.rollback disks
  orRollback (commitModifiedGptDisks crc32 plan.commit disks) rollback
  orRollback (setUfsBootLu plan targetSlot) rollback

/-- The disks of the storages as they are now. -/
def loadDisks (handles : Except EfiError (List Handle)) (allocated : Bool) :
    EfiM (List GptDisk) :=
  Proc.ofFun (fun w =>
    ((loadGptDisks crc32 w.devices handles allocated).mapError Stop.status, w))

/-- The steps of `switchSlotEntry` up to its label `exit`. -/
def switchSlotSteps (plan : UpdatePlan) (handles : Except EfiError (List Handle))
    (allocated : Bool) : EfiM Unit := do
  let disks ← loadDisks crc32 handles allocated
  let currentSlot ← ofExcept (detectActiveSlot disks)
  let targetSlot := if currentSlot = .a then .b else .a
  let (disks, pairCount) ← ofExcept (switchAllGptPairs disks currentSlot targetSlot 0)
  if pairCount = 0 then throw (.status .notFound)
  waitForConfirmation
  updateStorages crc32 plan targetSlot disks

def switchSlotEntry (plan : UpdatePlan) (handles : Except EfiError (List Handle))
    (allocated : Bool) : EfiM Unit :=
  exitOnKey (switchSlotSteps crc32 plan handles allocated)

end ProjectMu
