import ProjectMu.CrashLogic
import ProjectMu.TwoCopy
import ProjectMu.GptGeometry

/-!
# Writing the partition tables back

`commitGptDisk` writes the backup entry array, the backup header, the primary entry array
and the primary header of one storage and flushes it; a rollback runs the same sequence on
the original tables. Every call it makes outside the application follows a `CallPlan`: it
succeeds, fails with a status, or is the point at which power is lost. A write that does
not succeed leaves arbitrary bytes in its own range.
-/

namespace ProjectMu

open ByteCodec ByteRange CrashLogic TwoCopy

structure WriteRequest where
  device : ℕ
  range : Region
  deriving DecidableEq, Repr

/-- The storages, the boot LU of the UFS device, the key presses still to be read, and the
writes requested so far. -/
structure World where
  devices : ℕ → Store Byte
  bootLu : BitVec 32
  keys : List (BitVec 16)
  writes : List WriteRequest

/-- Why a procedure stops before its end. -/
inductive Stop
  | status (error : EfiError)
  | powerLoss
  | awaitingKey
  deriving DecidableEq, Repr

abbrev EfiM := Proc World Stop

def ofExcept {α : Type} : Except EfiError α → EfiM α
  | .ok a => pure a
  | .error e => throw (.status e)

inductive CallOutcome
  | success
  | failure (error : EfiError)
  | powerLoss
  deriving DecidableEq, Repr

/-- The calls of `commitGptDisk`: for each copy the write of its entry array, the allocation
of the buffer its header is copied to and the write of that buffer, and the final flush. -/
inductive CommitCall
  | entries (side : Side)
  | block (side : Side)
  | header (side : Side)
  | flush
  deriving DecidableEq, Repr

structure CallPlan where
  outcome : CommitCall → CallOutcome
  torn : CommitCall → ℕ → Byte

/-- A plan in which one call at most does not succeed. -/
def CallPlan.faultAt (call : CommitCall) (outcome : CallOutcome) : CallPlan where
  outcome call' := if call' = call then outcome else .success
  torn _ _ := 0

def CallPlan.noFaults : CallPlan := .faultAt .flush .success

def World.setStore (w : World) (device : ℕ) (store : Store Byte) : World :=
  { w with devices := Function.update w.devices device store }

def World.logWrite (w : World) (request : WriteRequest) : World :=
  { w with writes := w.writes ++ [request] }

def writeDisk (plan : CallPlan) (call : CommitCall) (blockIo : BlockIo) (offset : BitVec 64)
    (data : List Byte) : EfiM Unit :=
  Proc.ofFun (fun w =>
    let range : Region := ⟨offset.toNat, data.length⟩
    let store := w.devices blockIo.device
    let logged := w.logWrite ⟨blockIo.device, range⟩
    match plan.outcome call with
    | .success => (.ok (), logged.setStore blockIo.device (store.write offset.toNat data))
    | .failure e =>
      (.error (.status e), logged.setStore blockIo.device (store.tear range (plan.torn call)))
    | .powerLoss =>
      (.error .powerLoss, logged.setStore blockIo.device (store.tear range (plan.torn call))))

def flushBlocks (plan : CallPlan) (call : CommitCall) : EfiM Unit :=
  match plan.outcome call with
  | .success => pure ()
  | .failure e => throw (.status e)
  | .powerLoss => throw .powerLoss

def allocateZeroPool (plan : CallPlan) (call : CommitCall) (size : ℕ) : EfiM (List Byte) :=
  match plan.outcome call with
  | .success => pure (List.replicate size 0)
  | .failure _ => throw (.status .outOfResources)
  | .powerLoss => throw .powerLoss

variable (crc32 : List Byte → BitVec 32)

def updateGptHeaderCrc (header : EfiPartitionTableHeader) (entries : List Byte) :
    Except EfiError EfiPartitionTableHeader :=
  let header := header.setEntryArrayCrc32 0
  (calculateCrc32 crc32 entries).bind (fun crc =>
    let header := (header.setEntryArrayCrc32 crc).setCrc32 0
    (calculateCrc32 crc32
      ((headerCodec.encode header).take header.header.headerSize.toNat)).bind (fun crc =>
        .ok (header.setCrc32 crc)))

def writeGptEntryArray (plan : CallPlan) (call : CommitCall) (disk : GptDisk)
    (header : EfiPartitionTableHeader) (entries : List Byte) : EfiM Unit := do
  let offset ← ofExcept (gptLbaToOffset disk.blockIo header.partitionEntryLBA)
  writeDisk plan call disk.blockIo offset entries

def writeGptHeader (plan : CallPlan) (block call : CommitCall) (disk : GptDisk)
    (header : EfiPartitionTableHeader) : EfiM Unit := do
  let offset ← ofExcept (gptLbaToOffset disk.blockIo header.myLBA)
  let buffer ← allocateZeroPool plan block disk.blockIo.blockSize.toNat
  writeDisk plan call disk.blockIo offset (splice buffer 0 (headerCodec.encode header))

def commitGptDisk (plan : CallPlan) (disk : GptDisk) (restoreOriginal : Bool) : EfiM Unit := do
  let primaryEntries :=
    if restoreOriginal then disk.originalPrimaryEntries else disk.primaryEntries
  let backupEntries :=
    if restoreOriginal then disk.originalBackupEntries else disk.backupEntries
  let primaryHeader ← ofExcept (updateGptHeaderCrc crc32
    (if restoreOriginal then disk.originalPrimaryHeader else disk.primaryHeader) primaryEntries)
  let backupHeader ← ofExcept (updateGptHeaderCrc crc32
    (if restoreOriginal then disk.originalBackupHeader else disk.backupHeader) backupEntries)
  writeGptEntryArray plan (.entries .backup) disk backupHeader backupEntries
  writeGptHeader plan (.block .backup) (.header .backup) disk backupHeader
  writeGptEntryArray plan (.entries .primary) disk primaryHeader primaryEntries
  writeGptHeader plan (.block .primary) (.header .primary) disk primaryHeader
  flushBlocks plan .flush

/-- The loop both `commitModifiedGptDisks` and `rollbackModifiedGptDisks` run. -/
def forModified (body : GptDisk → EfiM Unit) : List GptDisk → EfiM Unit
  | [] => pure ()
  | disk :: disks => do
    if disk.modified then body disk
    forModified body disks

/-- The plan of each disk is that of its device; the disks are on distinct devices. -/
def commitModifiedGptDisks (plans : ℕ → CallPlan) (disks : List GptDisk) : EfiM Unit :=
  forModified (fun disk => commitGptDisk crc32 (plans disk.blockIo.device) disk false) disks

/-- A status is only reported; the loss of power is not a status. -/
def ignoreStatus (c : EfiM Unit) : EfiM Unit :=
  Proc.ofFun (fun w => match exec c w with
    | (.error (.status _), w') => (.ok (), w')
    | result => result)

def rollbackModifiedGptDisks (plans : ℕ → CallPlan) (disks : List GptDisk) : EfiM Unit :=
  forModified (fun disk =>
    ignoreStatus (commitGptDisk crc32 (plans disk.blockIo.device) disk true)) disks

end ProjectMu
