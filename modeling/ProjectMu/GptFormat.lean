import ProjectMu.ByteCodec

/-!
# The on-disk format of a GUID partition table

The packed header of 92 bytes and the packed entry of 128 bytes, each with its codec.
A table header carries its own CRC and the CRC of the entry array it describes.
-/

namespace ProjectMu

open ByteCodec

/-- Error statuses the application returns itself, and those a driver passes to it. -/
inductive EfiError
  | invalidParameter
  | notFound
  | compromisedData
  | outOfResources
  | badBufferSize
  | notReady
  | aborted
  | driver (code : BitVec 64)
  deriving DecidableEq, Repr

def efiUnsupported : EfiError := .driver 0x8000000000000003

def efiDeviceError : EfiError := .driver 0x8000000000000007

theorem except_bind_eq_ok {ε α β : Type*} {x : Except ε α} {f : α → Except ε β} {b : β} :
    x.bind f = .ok b ↔ ∃ a, x = .ok a ∧ f a = .ok b := by
  cases x with
  | error e => simp [Except.bind]
  | ok a => simp [Except.bind]

theorem ite_error_eq_ok {ε α : Type*} {p : Prop} [Decidable p] {e : ε} {x : Except ε α} {a : α} :
    (if p then .error e else x) = .ok a ↔ ¬ p ∧ x = .ok a := by
  by_cases hp : p <;> simp [hp]

structure EfiTableHeader where
  signature : BitVec 64
  revision : BitVec 32
  headerSize : BitVec 32
  crc32 : BitVec 32
  reserved : BitVec 32
  deriving DecidableEq, Repr

structure EfiPartitionTableHeader where
  header : EfiTableHeader
  myLBA : BitVec 64
  alternateLBA : BitVec 64
  firstUsableLBA : BitVec 64
  lastUsableLBA : BitVec 64
  diskGUID : BitVec 128
  partitionEntryLBA : BitVec 64
  numberOfPartitionEntries : BitVec 32
  sizeOfPartitionEntry : BitVec 32
  partitionEntryArrayCRC32 : BitVec 32
  deriving DecidableEq, Repr

namespace EfiPartitionTableHeader

def setCrc32 (h : EfiPartitionTableHeader) (crc : BitVec 32) : EfiPartitionTableHeader :=
  { h with header := { h.header with crc32 := crc } }

def setEntryArrayCrc32 (h : EfiPartitionTableHeader) (crc : BitVec 32) :
    EfiPartitionTableHeader :=
  { h with partitionEntryArrayCRC32 := crc }

variable (h : EfiPartitionTableHeader)

@[simp] theorem setCrc32_self : h.setCrc32 h.header.crc32 = h := rfl

@[simp] theorem setEntryArrayCrc32_self :
    h.setEntryArrayCrc32 h.partitionEntryArrayCRC32 = h := rfl

end EfiPartitionTableHeader

def gptMaxNameLength : ℕ := 36

structure EfiPartitionEntry where
  partitionTypeGUID : BitVec 128
  uniquePartitionGUID : BitVec 128
  startingLBA : BitVec 64
  endingLBA : BitVec 64
  attributes : BitVec 64
  partitionName : List.Vector (BitVec 16) gptMaxNameLength
  deriving DecidableEq

def EfiTableHeader.fields : EfiTableHeader ≃
    BitVec 64 × BitVec 32 × BitVec 32 × BitVec 32 × BitVec 32 where
  toFun h := (h.signature, h.revision, h.headerSize, h.crc32, h.reserved)
  invFun p := ⟨p.1, p.2.1, p.2.2.1, p.2.2.2.1, p.2.2.2.2⟩
  left_inv _ := rfl
  right_inv _ := rfl

def EfiPartitionTableHeader.fields : EfiPartitionTableHeader ≃
    EfiTableHeader × BitVec 64 × BitVec 64 × BitVec 64 × BitVec 64 × BitVec 128 × BitVec 64 ×
      BitVec 32 × BitVec 32 × BitVec 32 where
  toFun h := (h.header, h.myLBA, h.alternateLBA, h.firstUsableLBA, h.lastUsableLBA, h.diskGUID,
    h.partitionEntryLBA, h.numberOfPartitionEntries, h.sizeOfPartitionEntry,
    h.partitionEntryArrayCRC32)
  invFun p := ⟨p.1, p.2.1, p.2.2.1, p.2.2.2.1, p.2.2.2.2.1, p.2.2.2.2.2.1, p.2.2.2.2.2.2.1,
    p.2.2.2.2.2.2.2.1, p.2.2.2.2.2.2.2.2.1, p.2.2.2.2.2.2.2.2.2⟩
  left_inv _ := rfl
  right_inv _ := rfl

def EfiPartitionEntry.fields : EfiPartitionEntry ≃
    BitVec 128 × BitVec 128 × BitVec 64 × BitVec 64 × BitVec 64 ×
      List.Vector (BitVec 16) gptMaxNameLength where
  toFun e := (e.partitionTypeGUID, e.uniquePartitionGUID, e.startingLBA, e.endingLBA,
    e.attributes, e.partitionName)
  invFun p := ⟨p.1, p.2.1, p.2.2.1, p.2.2.2.1, p.2.2.2.2.1, p.2.2.2.2.2⟩
  left_inv _ := rfl
  right_inv _ := rfl

def char16 : Codec (BitVec 16) := .uint 16 2 rfl
def uint32 : Codec (BitVec 32) := .uint 32 4 rfl
def uint64 : Codec (BitVec 64) := .uint 64 8 rfl
def efiGuid : Codec (BitVec 128) := .uint 128 16 rfl

def tableHeaderCodec : Codec EfiTableHeader :=
  (uint64.prod (uint32.prod (uint32.prod (uint32.prod uint32)))).iso EfiTableHeader.fields

def headerCodec : Codec EfiPartitionTableHeader :=
  (tableHeaderCodec.prod (uint64.prod (uint64.prod (uint64.prod (uint64.prod (efiGuid.prod
    (uint64.prod (uint32.prod (uint32.prod uint32))))))))).iso EfiPartitionTableHeader.fields

def entryCodec : Codec EfiPartitionEntry :=
  (efiGuid.prod (efiGuid.prod (uint64.prod (uint64.prod (uint64.prod
    (char16.vector gptMaxNameLength)))))).iso EfiPartitionEntry.fields

theorem size_headerCodec : headerCodec.size = 92 := rfl

theorem size_entryCodec : entryCodec.size = 128 := rfl

theorem length_encode_header (h : EfiPartitionTableHeader) : (headerCodec.encode h).length = 92 :=
  headerCodec.length_encode h

theorem length_encode_entry (e : EfiPartitionEntry) : (entryCodec.encode e).length = 128 :=
  entryCodec.length_encode e

end ProjectMu
