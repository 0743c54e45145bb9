import ProjectMu.AccessLog
import ProjectMu.ShellCodeReference

/-!
# The patch of winload

Winload calls the function that transfers control to the kernel with one BL. The shell code is
copied in front of this function, and the BL is redirected to it. Each row of `winSemesterData`
says where the function starts in some versions of winload, and what follows the BL there.
-/

namespace ProjectMu

open AccessLog Arm64

inductive WinloadStatus
  | success
  | invalidParameter
  | notFound
  deriving DecidableEq, Repr

structure WinSemester where
  transferToKernelOffset : BitVec 16
  targetInstruction : BitVec 32
  deriving DecidableEq, Repr

def legacy : WinSemester := ⟨0x400, 0xD2800002⟩

def germanium : WinSemester := ⟨0x480, 0xD2800002⟩

def vibranium : WinSemester := ⟨0x490, 0xD2800002⟩

def selenium : WinSemester := ⟨0x850, 0xD2800002⟩

def bromine : WinSemester := ⟨0x8D0, 0x52800014⟩

def krypton : WinSemester := ⟨0xC60, 0x52800015⟩

def winSemesterData : List WinSemester :=
  [legacy, germanium, vibranium, selenium, bromine, krypton]

/-- Bytes from a location on that are read or written. -/
structure WinloadAccess where
  location : Address
  size : ℕ
  deriving DecidableEq

def copyMem (mem : Arm64.Memory) (destination : Address) (source : List (BitVec 8)) :
    Arm64.Memory := fun x =>
  source.getD (x - destination).toNat (mem x)

def transferToKernelAddr (base : Address) (s : WinSemester) : Address :=
  base + 0xC00 + s.transferToKernelOffset.setWidth 64

def newTransferToKernelAddr (base : Address) (s : WinSemester) (shellCode : List (BitVec 8)) :
    Address :=
  transferToKernelAddr base s - BitVec.ofNat 64 shellCode.length

/-- The shell code is copied and the branch redirected. -/
def injectShellCode (mem : Arm64.Memory) (base : Address) (shellCode : List (BitVec 8))
    (s : WinSemester) (current : Address) : Logged WinloadAccess Arm64.Memory := do
  let destination := newTransferToKernelAddr base s shellCode
  let mem ← access ⟨destination, shellCode.length⟩ (copyMem mem destination shellCode)
  access ⟨current, 4⟩
    (mem.write current 4 ((arm64BranchLocationInstruction current destination).setWidth 64))

/-- A round of the search through the area of a row; its result is the patched memory. -/
def searchBranch (mem : Arm64.Memory) (base : Address) (length : BitVec 64)
    (shellCode : List (BitVec 8)) (s : WinSemester) (current : Address) :
    Logged WinloadAccess (Next Address (Option Arm64.Memory)) :=
  let start := transferToKernelAddr base s
  if current < start + length then do
    let instruction ← access ⟨current, 4⟩ (mem.read32 current)
    if instruction ≠ arm64BranchLocationInstruction current start then pure (.more (current + 4))
    else
      let next ← access ⟨current + 4, 4⟩ (mem.read32 (current + arm64TotalInstructionLength 1))
      if next ≠ s.targetInstruction then pure (.more (current + 4))
      else
        let patched ← injectShellCode mem base shellCode s current
        pure (.done (some patched))
  else pure (.done none)

def searchSemester (mem : Arm64.Memory) (n : ℕ) (base : Address) (length : BitVec 64)
    (shellCode : List (BitVec 8)) (s : WinSemester) :
    Logged WinloadAccess (Option (Option Arm64.Memory)) :=
  loop (fun _ => searchBranch mem base length shellCode s) n (transferToKernelAddr base s)

/-- The rows one after the other, up to the first whose branch is found. -/
def patchSemesters (mem : Arm64.Memory) (n : ℕ) (base : Address) (length : BitVec 64)
    (shellCode : List (BitVec 8)) :
    List WinSemester → Logged WinloadAccess (Option (WinloadStatus × Arm64.Memory))
  | [] => pure (some (.notFound, mem))
  | s :: semesters => do
    let found ← searchSemester mem n base length shellCode s
    match found with
    | none => pure none
    | some (some patched) => pure (some (.success, patched))
    | some none => patchSemesters mem n base length shellCode semesters

/-- `ShellCode` is `none` for NULL. -/
def patchOsLoaderArm64TransferToKernel (mem : Arm64.Memory) (n : ℕ) (base : Address)
    (length : BitVec 64) (shellCode : Option (List (BitVec 8))) :
    Logged WinloadAccess (Option (WinloadStatus × Arm64.Memory)) :=
  match shellCode with
  | none => pure (some (.invalidParameter, mem))
  | some shellCode =>
    if base = 0 ∨ shellCode.length = 0 then pure (some (.invalidParameter, mem))
    else patchSemesters mem n base length shellCode winSemesterData

variable {mem : Arm64.Memory} {n k : ℕ} {base current : Address} {length : BitVec 64}
  {shellCode : List (BitVec 8)} {s : WinSemester} {semesters : List WinSemester}

/-- The branch to the function of a row, as the row describes it. -/
def IsBranchAt (mem : Arm64.Memory) (base : Address) (s : WinSemester) (current : Address) :
    Prop :=
  mem.read32 current = arm64BranchLocationInstruction current (transferToKernelAddr base s) ∧
    mem.read32 (current + arm64TotalInstructionLength 1) = s.targetInstruction

instance (mem : Arm64.Memory) (base : Address) (s : WinSemester) (current : Address) :
    Decidable (IsBranchAt mem base s current) :=
  inferInstanceAs (Decidable (_ ∧ _))

theorem searchBranch_of_le (h : ¬current < transferToKernelAddr base s + length) :
    searchBranch mem base length shellCode s current = pure (.done none) :=
  if_neg h

theorem searchBranch_of_branch (h : current < transferToKernelAddr base s + length)
    (hbranch : IsBranchAt mem base s current) :
    let injected := injectShellCode mem base shellCode s current
    searchBranch mem base length shellCode s current =
      ⟨.done (some injected.value), ⟨current, 4⟩ :: ⟨current + 4, 4⟩ :: injected.log⟩ := by
  rw [searchBranch, if_pos h, access_bind, if_neg (not_not.mpr hbranch.1), access_bind,
    if_neg (not_not.mpr hbranch.2), bind_pure_eq]

/-- Where there is no branch, one word or two are read. -/
theorem searchBranch_of_not_branch (shellCode : List (BitVec 8))
    (h : current < transferToKernelAddr base s + length)
    (hbranch : ¬IsBranchAt mem base s current) :
    (searchBranch mem base length shellCode s current).value = .more (current + 4) ∧
      ⟨current, 4⟩ ∈ (searchBranch mem base length shellCode s current).log ∧
      (searchBranch mem base length shellCode s current).log ⊆
        [⟨current, 4⟩, ⟨current + 4, 4⟩] := by
  rw [searchBranch, if_pos h, access_bind]
  by_cases hfirst : mem.read32 current =
      arm64BranchLocationInstruction current (transferToKernelAddr base s)
  · have hsecond : mem.read32 (current + arm64TotalInstructionLength 1) ≠ s.targetInstruction :=
      fun heq => hbranch ⟨hfirst, heq⟩
    rw [if_neg (not_not.mpr hfirst), access_bind, if_pos hsecond]
    exact ⟨rfl, List.mem_cons_self, List.Subset.refl _⟩
  · rw [if_pos hfirst]
    exact ⟨rfl, List.mem_cons_self, List.cons_subset_cons _ (List.nil_subset _)⟩

end ProjectMu
