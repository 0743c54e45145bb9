import ProjectMu.FindPattern
import ProjectMu.GptFormat
import ProjectMu.ShellCode
import ProjectMu.WinloadLocate
import ProjectMu.WinloadPatch

/-!
# The hook into ExitBootServices

At ready to boot the patcher puts a wrapper in the table of boot services. When the wrapper is
called, it puts the original function back, patches winload, and calls the original one. Over
any run the callers of the table reach the firmware exactly as without the hook. An error of the
protocol for memory attributes is only logged, so winload is protected again by then exactly if the
protocol could do that.
-/

namespace ProjectMu

open AccessLog Arm64

/-- What the table holds for `ExitBootServices`. -/
inductive ExitBootServices
  | null
  | firmware
  | wrapper
  deriving DecidableEq

/-- What the hook does to the machine, and the calls that the firmware gets. -/
inductive HookAction
  | setMemoryAttributes (base : Address) (length : BitVec 64) (done : Bool)
  | clearMemoryAttributes (base : Address) (length : BitVec 64) (done : Bool)
  | store (mem : Arm64.Memory)
  | exitBootServices (imageHandle mapKey : BitVec 64)

/-- The platform's part of the patches. -/
structure ErrataPatchesLib where
  applyPlatformErrataPatches : Arm64.Memory → Address → BitVec 64 → Except EfiError Arm64.Memory
  getPlatformTransferToKernelShellCode : Option (List (BitVec 8))

/-- The protocol for memory attributes; its functions answer with a status. -/
structure MemoryAttribute where
  setMemoryAttributes : Address → BitVec 64 → Except EfiError Unit
  clearMemoryAttributes : Address → BitVec 64 → Except EfiError Unit

structure ErrataPlatform where
  alignValue : (w : ℕ) → BitVec w → BitVec w → BitVec w
  calculateCrc32 : ExitBootServices → BitVec 32
  errataPatches : ErrataPatchesLib

structure KernelErrata where
  exitBootServices : ExitBootServices
  crc32 : BitVec 32
  originalEfiExitBootServices : ExitBootServices
  readyToBootEvent : Bool
  memoryAttributeProtocol : Option MemoryAttribute
  mem : Arm64.Memory
  log : List HookAction

/-- The text `28 10 38 D5`. -/
def actlrEl1Pattern (i : ℕ) : BitVec 8 :=
  [0x32, 0x38, 0x20, 0x31, 0x30, 0x20, 0x33, 0x38, 0x20, 0x44, 0x35].getD i 0

def applyReadActlrEl1Patch (mem : Arm64.Memory) (base : Address) (length : BitVec 64) :
    Arm64.Memory :=
  let illegalInstruction := (findPattern mem base length actlrEl1Pattern).value
  if illegalInstruction = 0 then mem
  else copyMem mem illegalInstruction [0x08, 0x00, 0x80, 0xD2]

def errataPatchesLib (flags : ErrataFlags) : ErrataPatchesLib where
  applyPlatformErrataPatches mem base length :=
    .ok (if flags.actlrEl1Unimplemented then applyReadActlrEl1Patch mem base length else mem)
  getPlatformTransferToKernelShellCode := some (transferToKernelShellCode flags)

def errataPatchesLibNull : ErrataPatchesLib where
  applyPlatformErrataPatches _ _ _ := .error efiUnsupported
  getPlatformTransferToKernelShellCode := none

namespace KernelErrata

def setWinloadProtection (base : Address) (length : BitVec 64) (enable : Bool)
    (s : KernelErrata) : Except EfiError Unit × KernelErrata :=
  match s.memoryAttributeProtocol with
  | none => (.ok (), s)
  | some protocol =>
    if base = 0 ∨ length = 0 then (.error .invalidParameter, s)
    else if enable then
      let status := protocol.setMemoryAttributes base length
      (status, { s with log := s.log ++ [.setMemoryAttributes base length status.isOk] })
    else
      let status := protocol.clearMemoryAttributes base length
      (status, { s with log := s.log ++ [.clearMemoryAttributes base length status.isOk] })

def setMemory (mem : Arm64.Memory) (s : KernelErrata) : KernelErrata :=
  { s with mem := mem, log := s.log ++ [.store mem] }

/-- From the errata patches to the injection, with the label behind them. -/
def patchWinload (p : ErrataPlatform) (n : ℕ) (base : Address) (length : BitVec 64)
    (s : KernelErrata) : Option KernelErrata :=
  let reprotect (s : KernelErrata) := (setWinloadProtection base length true s).2
  match setWinloadProtection base length false s with
  | (.error _, s) => some (reprotect s)
  | (.ok (), s) =>
    match p.errataPatches.applyPlatformErrataPatches s.mem base length with
    | .error _ => some (reprotect s)
    | .ok mem =>
      let s := setMemory mem s
      match p.errataPatches.getPlatformTransferToKernelShellCode with
      | none => some (reprotect s)
      | some shellCode =>
        if shellCode.length = 0 then some (reprotect s)
        else
          (patchOsLoaderArm64TransferToKernel s.mem n base length (some shellCode)).value.map
            fun patched => reprotect (setMemory patched.2 s)

/-- Up to the call of the original function. -/
def kernelErrataPatcherExitBootServices (p : ErrataPlatform) (n : ℕ)
    (fwpKernelSetupPhase1 : Address) (s : KernelErrata) : Option KernelErrata :=
  let s := { s with
    exitBootServices := s.originalEfiExitBootServices
    crc32 := p.calculateCrc32 s.originalEfiExitBootServices }
  match locateWinloadMemoryRange p.alignValue s.mem n fwpKernelSetupPhase1 false false with
  | none => none
  | some (.error _) => some s
  | some (.ok (base, length)) => patchWinload p n base length s

/-- A call through the table; the wrapper calls through the table again, here for at most the
given number of times. A call of NULL has no result. -/
def callExitBootServices (p : ErrataPlatform) (n : ℕ) (imageHandle mapKey : BitVec 64)
    (fwpKernelSetupPhase1 : Address) : ℕ → KernelErrata → Option KernelErrata
  | 0, _ => none
  | depth + 1, s =>
    match s.exitBootServices with
    | .null => none
    | .firmware => some { s with log := s.log ++ [.exitBootServices imageHandle mapKey] }
    | .wrapper =>
      (kernelErrataPatcherExitBootServices p n fwpKernelSetupPhase1 s).bind
        (callExitBootServices p n imageHandle mapKey fwpKernelSetupPhase1 depth)

/-- The signal calls the handler as long as its event is open. -/
def readyToBootHandler (p : ErrataPlatform) (s : KernelErrata) : KernelErrata :=
  if s.readyToBootEvent then
    { s with
      originalEfiExitBootServices := s.exitBootServices
      exitBootServices := .wrapper
      crc32 := p.calculateCrc32 .wrapper
      readyToBootEvent := false }
  else s

/-- `createEventEx` tells whether the event was created. -/
def kernelErrataPatcherLibConstructor (p : ErrataPlatform) (createEventEx : Bool)
    (locateProtocol : Option MemoryAttribute) (mem : Arm64.Memory) : KernelErrata where
  exitBootServices := .firmware
  crc32 := p.calculateCrc32 .firmware
  originalEfiExitBootServices := .null
  readyToBootEvent := createEventEx
  memoryAttributeProtocol := if createEventEx then locateProtocol else none
  mem := mem
  log := []

end KernelErrata

open KernelErrata

/-- What happens to the machine until the firmware lets go of it, in any order. -/
inductive BootCall
  | readyToBoot
  | load (mem : Arm64.Memory)
  | exitBootServices (imageHandle mapKey : BitVec 64) (returnAddress : Address)

namespace KernelErrata

def step (p : ErrataPlatform) (n depth : ℕ) (s : KernelErrata) : BootCall → Option KernelErrata
  | .readyToBoot => some (readyToBootHandler p s)
  | .load mem => some { s with mem := mem }
  | .exitBootServices imageHandle mapKey returnAddress =>
    callExitBootServices p n imageHandle mapKey returnAddress depth s

def run (p : ErrataPlatform) (n depth : ℕ) (s : KernelErrata) (calls : List BootCall) :
    Option KernelErrata :=
  calls.foldlM (step p n depth) s

/-- The arguments with which the firmware was called. -/
def firmwareCalls (log : List HookAction) : List (BitVec 64 × BitVec 64) :=
  log.filterMap fun
    | .exitBootServices imageHandle mapKey => some (imageHandle, mapKey)
    | _ => none

/-- The arguments of the calls through the table. -/
def requestedCalls (calls : List BootCall) : List (BitVec 64 × BitVec 64) :=
  calls.filterMap fun
    | .exitBootServices imageHandle mapKey _ => some (imageHandle, mapKey)
    | _ => none

def HookAction.IsClear : HookAction → Bool
  | .clearMemoryAttributes _ _ _ => true
  | _ => false

/-- How often the protection of winload was taken off. -/
def clearings (log : List HookAction) : ℕ := log.countP HookAction.IsClear

/-- The log of a machine on which winload is only written after its protection was taken off, and
the protocol is asked to protect it again before the firmware is called. The range that is to be
protected comes with whether its protection was taken off. -/
inductive Bracketed (protocol : MemoryAttribute) :
    Option (Address × BitVec 64 × Bool) → List HookAction → Prop
  | nil : Bracketed protocol none []
  | clear {base length done log} : Bracketed protocol (some (base, length, done)) log →
      Bracketed protocol none (.clearMemoryAttributes base length done :: log)
  | store {base length mem log} : Bracketed protocol (some (base, length, true)) log →
      Bracketed protocol (some (base, length, true)) (.store mem :: log)
  | set {base length done log} : Bracketed protocol none log →
      Bracketed protocol (some (base, length, done))
        (.setMemoryAttributes base length (protocol.setMemoryAttributes base length).isOk :: log)
  | exit {imageHandle mapKey log} : Bracketed protocol none log →
      Bracketed protocol none (.exitBootServices imageHandle mapKey :: log)

/-- What an action does to the ranges that are not protected. A call of the protocol that fails
changes nothing. -/
def unprotect (ranges : List (Address × BitVec 64)) : HookAction → List (Address × BitVec 64)
  | .clearMemoryAttributes base length done => if done then (base, length) :: ranges else ranges
  | .setMemoryAttributes base length done =>
    if done then ranges.filter (· ≠ (base, length)) else ranges
  | .store _ => ranges
  | .exitBootServices _ _ => ranges

/-- The ranges whose protection is off after the actions of a log. -/
def unprotected (log : List HookAction) : List (Address × BitVec 64) := log.foldl unprotect []

theorem Bracketed.append {protocol : MemoryAttribute}
    {range : Option (Address × BitVec 64 × Bool)} {log log' : List HookAction}
    (h : Bracketed protocol range log) (h' : Bracketed protocol none log') :
    Bracketed protocol range (log ++ log') := by
  induction h with
  | nil => exact h'
  | clear _ ih => exact .clear ih
  | store _ ih => exact .store ih
  | set _ ih => exact .set ih
  | exit _ ih => exact .exit ih

/-- The table is that of the firmware, or holds the wrapper with the firmware's function behind
it and no event that would put it there again. Its checksum is right, and winload was left
unprotected at most once, and not before the wrapper was called. -/
structure Hooked (p : ErrataPlatform) (s : KernelErrata) : Prop where
  crc32 : s.crc32 = p.calculateCrc32 s.exitBootServices
  table : s.exitBootServices = .firmware ∨
    s.exitBootServices = .wrapper ∧ s.originalEfiExitBootServices = .firmware ∧
      s.readyToBootEvent = false
  once : clearings s.log ≤ 1
  fresh : s.readyToBootEvent = true ∨ s.exitBootServices = .wrapper → clearings s.log = 0

variable {p : ErrataPlatform} {n depth : ℕ} {s s' t : KernelErrata} {base fwp : Address}
  {length imageHandle mapKey : BitVec 64} {done : Bool}

/-- What the patch leaves alone, and what it has added to the log when the range is the one that
is not protected. -/
structure Extends (range : Option (Address × BitVec 64 × Bool)) (s t : KernelErrata) : Prop where
  exitBootServices : t.exitBootServices = s.exitBootServices
  crc32 : t.crc32 = s.crc32
  original : t.originalEfiExitBootServices = s.originalEfiExitBootServices
  event : t.readyToBootEvent = s.readyToBootEvent
  protocol : t.memoryAttributeProtocol = s.memoryAttributeProtocol
  log : ∃ new, t.log = s.log ++ new ∧ firmwareCalls new = [] ∧ clearings new ≤ 1 ∧
    ∀ protocol, s.memoryAttributeProtocol = some protocol →
      ∀ rest, Bracketed protocol range rest → Bracketed protocol none (new ++ rest)

theorem Extends.refl (s : KernelErrata) : Extends none s s :=
  ⟨rfl, rfl, rfl, rfl, rfl, [], (List.append_nil _).symm, rfl, Nat.zero_le _,
    fun _ _ _ h => h⟩

/-- Without the protocol, winload counts as not protected. -/
theorem Extends.of_none (hprotocol : s.memoryAttributeProtocol = none) :
    Extends (some (base, length, done)) s s :=
  ⟨rfl, rfl, rfl, rfl, rfl, [], (List.append_nil _).symm, rfl, Nat.zero_le _,
    fun _ h => absurd (hprotocol.symm.trans h) (Option.some_ne_none _).symm⟩

theorem firmwareCalls_append (log log' : List HookAction) :
    firmwareCalls (log ++ log') = firmwareCalls log ++ firmwareCalls log' :=
  List.filterMap_append

theorem clearings_append (log log' : List HookAction) :
    clearings (log ++ log') = clearings log + clearings log' :=
  List.countP_append

theorem Extends.setMemory (h : Extends (some (base, length, true)) s t) (mem : Arm64.Memory) :
    Extends (some (base, length, true)) s (setMemory mem t) := by
  obtain ⟨new, hlog, hcalls, hclear, hbracketed⟩ := h.log
  refine ⟨h.exitBootServices, h.crc32, h.original, h.event, h.protocol, new ++ [.store mem], ?_,
    ?_, ?_, fun protocol hprotocol rest hrest => ?_⟩
  · rw [← List.append_assoc, ← hlog]
    rfl
  · rw [firmwareCalls_append, hcalls]
    rfl
  · rw [clearings_append]
    exact hclear
  · rw [List.append_assoc]
    exact hbracketed protocol hprotocol _ (.store hrest)

/-- Whether the range passes the check of the parameters, which is not made without protocol. -/
def Refused (base : Address) (length : BitVec 64) (s : KernelErrata) : Prop :=
  s.memoryAttributeProtocol ≠ none ∧ (base = 0 ∨ length = 0)

theorem setWinloadProtection_of_refused (h : Refused base length s) (enable : Bool) :
    setWinloadProtection base length enable s = (.error .invalidParameter, s) := by
  obtain ⟨hprotocol, hrange⟩ := h
  rw [setWinloadProtection]
  split
  · next hnone => exact absurd hnone hprotocol
  · exact if_pos hrange

theorem setWinloadProtection_clear (h : ¬Refused base length s) :
    Extends (some (base, length, (setWinloadProtection base length false s).1.isOk)) s
      (setWinloadProtection base length false s).2 := by
  rw [setWinloadProtection]
  split
  · next hnone => exact .of_none hnone
  · next protocol hsome =>
    have hrange : ¬(base = 0 ∨ length = 0) := fun hzero =>
      h ⟨by rw [hsome]; exact Option.some_ne_none _, hzero⟩
    rw [if_neg hrange, if_neg Bool.false_ne_true]
    exact ⟨rfl, rfl, rfl, rfl, rfl, _, rfl, rfl, le_rfl, fun _ _ rest hrest => .clear hrest⟩

theorem Extends.protect (hrange : ¬Refused base length s)
    (h : Extends (some (base, length, done)) s t) :
    Extends none s (setWinloadProtection base length true t).2 := by
  obtain ⟨new, hlog, hcalls, hclear, hbracketed⟩ := h.log
  rw [setWinloadProtection]
  split
  · next hnone =>
    rw [h.protocol] at hnone
    exact ⟨h.exitBootServices, h.crc32, h.original, h.event, h.protocol, new, hlog, hcalls,
      hclear, fun _ hsome => absurd (hnone.symm.trans hsome) (Option.some_ne_none _).symm⟩
  · next protocol hsome =>
    have hvalid : ¬(base = 0 ∨ length = 0) := fun hzero =>
      hrange ⟨by rw [← h.protocol, hsome]; exact Option.some_ne_none _, hzero⟩
    rw [if_neg hvalid, if_pos rfl]
    refine ⟨h.exitBootServices, h.crc32, h.original, h.event, h.protocol,
      new ++ [.setMemoryAttributes base length (protocol.setMemoryAttributes base length).isOk],
      ?_, ?_, ?_, fun protocol' hprotocol rest hrest => ?_⟩
    · rw [← List.append_assoc, ← hlog]
    · rw [firmwareCalls_append, hcalls]
      rfl
    · rw [clearings_append]
      exact hclear
    · obtain rfl : protocol' = protocol := by
        rw [h.protocol, hprotocol] at hsome
        exact Option.some_inj.mp hsome
      rw [List.append_assoc]
      exact hbracketed protocol' hprotocol _ (.set hrest)

/-- On every path the protocol is asked to put the protection on again. -/
theorem patchWinload_extends (h : patchWinload p n base length s = some s') :
    Extends none s s' := by
  by_cases hrefused : Refused base length s
  · have hprotect := setWinloadProtection_of_refused hrefused
    simp only [patchWinload, hprotect] at h
    obtain rfl := Option.some.inj h
    exact .refl s
  · have hclear := setWinloadProtection_clear hrefused
    rw [patchWinload] at h
    generalize setWinloadProtection base length false s = r at h hclear
    obtain ⟨status, t⟩ := r
    cases status with
    | error e =>
      obtain rfl := Option.some.inj h
      exact hclear.protect hrefused
    | ok =>
      dsimp only at h
      cases happly : p.errataPatches.applyPlatformErrataPatches t.mem base length with
      | error e =>
        rw [happly] at h
        obtain rfl := Option.some.inj h
        exact hclear.protect hrefused
      | ok mem =>
        rw [happly] at h
        have hstored := hclear.setMemory mem
        cases hcode : p.errataPatches.getPlatformTransferToKernelShellCode with
        | none =>
          rw [hcode] at h
          obtain rfl := Option.some.inj h
          exact hstored.protect hrefused
        | some shellCode =>
          rw [hcode] at h
          dsimp only at h
          split at h
          · obtain rfl := Option.some.inj h
            exact hstored.protect hrefused
          · obtain ⟨patched, -, rfl⟩ := Option.map_eq_some_iff.mp h
            exact (hstored.setMemory patched.2).protect hrefused

theorem patchWinload_ends (hlength : 4 ∣ length.toNat) (hn : length.toNat < n) :
    ∃ s', patchWinload p n base length s = some s' := by
  rw [patchWinload]
  generalize setWinloadProtection base length false s = r
  obtain ⟨status, t⟩ := r
  cases status with
  | error e => exact ⟨_, rfl⟩
  | ok =>
    dsimp only
    cases p.errataPatches.applyPlatformErrataPatches t.mem base length with
    | error e => exact ⟨_, rfl⟩
    | ok mem =>
      cases p.errataPatches.getPlatformTransferToKernelShellCode with
      | none => exact ⟨_, rfl⟩
      | some shellCode =>
        dsimp only
        split
        · exact ⟨_, rfl⟩
        · by_cases hrejected : Rejected base (some shellCode)
          · rw [patch_of_rejected hrejected]
            exact ⟨_, rfl⟩
          · rw [patch_of_not_rejected hrejected]
            obtain ⟨result, hresult⟩ := @patchSemesters_ends (setMemory mem t).mem n base length
              ((some shellCode).getD []) winSemesterData hlength hn
            rw [hresult]
            exact ⟨_, rfl⟩

/-- The macro rounds to a multiple of the page size. -/
def RoundsToPages (alignValue : (w : ℕ) → BitVec w → BitVec w → BitVec w) : Prop :=
  ∀ value : BitVec 32, efiPageSize ∣ (alignValue 32 value (BitVec.ofNat 32 efiPageSize)).toNat

theorem alignUp_roundsToPages : RoundsToPages alignUp := by
  intro value
  have hmask : ((BitVec.ofNat 32 efiPageSize - value) &&& (BitVec.ofNat 32 efiPageSize - 1)).toNat =
      (BitVec.ofNat 32 efiPageSize - value).toNat % 2 ^ 12 := by
    rw [BitVec.toNat_and, ← Nat.and_two_pow_sub_one_eq_mod]
    rfl
  rw [alignUp, BitVec.toNat_add, hmask, BitVec.toNat_sub, BitVec.toNat_ofNat]
  rw [efiPageSize]
  omega

theorem scanWinload_length {mem : Arm64.Memory} {scanEnd current : Address}
    (h : scanWinload p.alignValue mem scanEnd n current = some (.ok (base, length))) :
    ∃ header, length = winloadLength p.alignValue mem header := by
  induction n generalizing current with
  | zero => cases h
  | succ n ih =>
    rw [scanWinload] at h
    split_ifs at h
    · exact ih h
    · exact ih h
    · obtain ⟨-, rfl⟩ := Prod.mk.inj (Except.ok.inj (Option.some.inj h))
      exact ⟨current, rfl⟩
    · cases Option.some.inj h

/-- The search ends after the pages of its area, or at once where the area would start below
zero. -/
theorem scanWinload_ends {mem : Arm64.Memory} {start : Address} (hn : scanPages < n) :
    ∃ result, scanWinload p.alignValue mem (start - BitVec.ofNat 64 maxFwpScanLength) n start =
      some result := by
  by_cases hstart : maxFwpScanLength ≤ start.toNat
  · suffices h : ∀ n i, i ≤ scanPages → scanPages < i + n → ∃ result, scanWinload p.alignValue mem
        (start - BitVec.ofNat 64 maxFwpScanLength) n (scanPage start i) = some result by
      have hfirst := h n 0 (Nat.zero_le _) (by omega)
      rwa [scanPage_zero] at hfirst
    intro n
    induction n with
    | zero => omega
    | succ n ih =>
      intro i hi hleft
      rw [scanWinload, scanPage_succ]
      split
      · next hlt =>
        have hnext := (lt_scanPage_iff hstart hi).mp hlt
        have hmore := ih (i + 1) hnext (by omega)
        split_ifs
        · exact hmore
        · exact hmore
        · exact ⟨_, rfl⟩
      · exact ⟨_, rfl⟩
  · have hend : ¬start - BitVec.ofNat 64 maxFwpScanLength < start := by
      rw [maxFwpScanLength] at hstart ⊢
      bv_omega
    obtain ⟨m, rfl⟩ : ∃ m, n = m + 1 := ⟨n - 1, by omega⟩
    rw [scanWinload, if_neg hend]
    exact ⟨_, rfl⟩

/-- The wrapper puts the original function back and comes to its end. -/
theorem kernelErrataPatcherExitBootServices_spec (halign : RoundsToPages p.alignValue)
    (hn : 2 ^ 32 ≤ n) (fwp : Address) (s : KernelErrata) :
    ∃ s', kernelErrataPatcherExitBootServices p n fwp s = some s' ∧
      Extends none { s with
        exitBootServices := s.originalEfiExitBootServices
        crc32 := p.calculateCrc32 s.originalEfiExitBootServices } s' := by
  have hpages : scanPages < n := by
    have : scanPages = 768 := rfl
    omega
  obtain ⟨result, hlocate⟩ := @scanWinload_ends p n s.mem (scanStart p.alignValue fwp) hpages
  have hlocated : locateWinloadMemoryRange p.alignValue s.mem n fwp false false = some result :=
    hlocate
  rw [kernelErrataPatcherExitBootServices]
  dsimp only
  rw [hlocated]
  cases result with
  | error e => exact ⟨_, rfl, .refl _⟩
  | ok range =>
    obtain ⟨base, length⟩ := range
    obtain ⟨header, rfl⟩ := scanWinload_length hlocate
    have hdvd : 4 ∣ (winloadLength p.alignValue s.mem header).toNat := by
      have hpage := halign (ntSizeOfImage s.mem (ntHeader s.mem header))
      rw [winloadLength, BitVec.toNat_setWidth_of_le (by decide)]
      exact Dvd.dvd.trans ⟨0x400, rfl⟩ hpage
    have hlt : (winloadLength p.alignValue s.mem header).toNat < n := by
      rw [winloadLength, BitVec.toNat_setWidth_of_le (by decide)]
      exact (BitVec.isLt _).trans_le hn
    obtain ⟨s', hpatch⟩ := @patchWinload_ends p n _ base _ hdvd hlt
    exact ⟨s', hpatch, patchWinload_extends hpatch⟩

/-- A call through the table reaches the firmware, once and with its arguments. -/
theorem callExitBootServices_spec (halign : RoundsToPages p.alignValue) (hn : 2 ^ 32 ≤ n)
    (h : Hooked p s) :
    ∃ s' new, callExitBootServices p n imageHandle mapKey fwp (depth + 2) s = some s' ∧
      Hooked p s' ∧ s'.exitBootServices = .firmware ∧
      s'.memoryAttributeProtocol = s.memoryAttributeProtocol ∧ s'.log = s.log ++ new ∧
      firmwareCalls new = [(imageHandle, mapKey)] ∧
      (∀ protocol, s.memoryAttributeProtocol = some protocol → Bracketed protocol none new) := by
  rcases h.table with hfirmware | ⟨hwrapper, horiginal, hevent⟩
  · refine ⟨{ s with log := s.log ++ [.exitBootServices imageHandle mapKey] }, _, ?_, ?_,
      hfirmware, rfl, rfl, rfl, fun _ _ => .exit .nil⟩
    · rw [callExitBootServices, hfirmware]
    · refine ⟨h.crc32, .inl hfirmware, ?_, fun hfresh => ?_⟩
      · rw [clearings_append]
        exact h.once
      · rw [clearings_append]
        exact h.fresh hfresh
  · obtain ⟨t, hhook, hextends⟩ := kernelErrataPatcherExitBootServices_spec halign hn fwp s
    obtain ⟨new, hlog, hcalls, hclear, hbracketed⟩ := hextends.log
    have htable : t.exitBootServices = .firmware := hextends.exitBootServices.trans horiginal
    have hzero := h.fresh (.inr hwrapper)
    refine ⟨{ t with log := t.log ++ [.exitBootServices imageHandle mapKey] },
      new ++ [.exitBootServices imageHandle mapKey], ?_, ?_, htable, hextends.protocol, ?_, ?_,
      fun protocol hprotocol => hbracketed protocol hprotocol _ (.exit .nil)⟩
    · rw [callExitBootServices, hwrapper]
      dsimp only
      rw [hhook, Option.bind_some, callExitBootServices, htable]
    · refine ⟨?_, .inl htable, ?_, ?_⟩
      · change t.crc32 = p.calculateCrc32 t.exitBootServices
        rw [hextends.crc32, hextends.exitBootServices]
      · rw [clearings_append, hlog, clearings_append]
        change clearings s.log + clearings new + 0 ≤ 1
        omega
      · rintro (hopen | hnot)
        · have hclosed : t.readyToBootEvent = false := hextends.event.trans hevent
          rw [hclosed] at hopen
          cases hopen
        · rw [htable] at hnot
          cases hnot
    · rw [hlog, List.append_assoc]
    · rw [firmwareCalls_append, hcalls]
      rfl

theorem readyToBootHandler_hooked (h : Hooked p s) : Hooked p (readyToBootHandler p s) := by
  rw [readyToBootHandler]
  split
  · next hopen =>
    have hfirmware : s.exitBootServices = .firmware := by
      rcases h.table with hfirmware | ⟨-, -, hclosed⟩
      · exact hfirmware
      · rw [hclosed] at hopen
        cases hopen
    exact ⟨rfl, .inr ⟨rfl, hfirmware, rfl⟩, h.once, fun _ => h.fresh (.inl hopen)⟩
  · exact h

theorem run_spec (halign : RoundsToPages p.alignValue) (hn : 2 ^ 32 ≤ n) (h : Hooked p s)
    (calls : List BootCall) :
    ∃ s' new, run p n (depth + 2) s calls = some s' ∧ Hooked p s' ∧ s'.log = s.log ++ new ∧
      firmwareCalls new = requestedCalls calls ∧
      (∀ protocol, s.memoryAttributeProtocol = some protocol → Bracketed protocol none new) := by
  induction calls generalizing s with
  | nil => exact ⟨s, [], rfl, h, (List.append_nil _).symm, rfl, fun _ _ => .nil⟩
  | cons call calls ih =>
    cases call with
    | readyToBoot =>
      obtain ⟨s', new, hrun, hhooked, hlog, hcalls, hbracketed⟩ := ih (readyToBootHandler_hooked h)
      have hsame : (readyToBootHandler p s).log = s.log ∧
          (readyToBootHandler p s).memoryAttributeProtocol = s.memoryAttributeProtocol := by
        rw [readyToBootHandler]
        split <;> exact ⟨rfl, rfl⟩
      rw [hsame.1] at hlog
      rw [hsame.2] at hbracketed
      exact ⟨s', new, hrun, hhooked, hlog, hcalls, hbracketed⟩
    | load mem =>
      have hload : Hooked p { s with mem := mem } := ⟨h.crc32, h.table, h.once, h.fresh⟩
      exact ih hload
    | exitBootServices imageHandle mapKey returnAddress =>
      obtain ⟨t, new, hcall, hhooked, -, hprotocol, hlog, hcalls, hbracketed⟩ :=
        @callExitBootServices_spec p n depth s returnAddress imageHandle mapKey halign hn h
      obtain ⟨s', new', hrun, hhooked', hlog', hcalls', hbracketed'⟩ := ih hhooked
      rw [hprotocol] at hbracketed'
      refine ⟨s', new ++ new', ?_, hhooked', ?_, ?_, fun protocol hsome => ?_⟩
      · rw [run, List.foldlM_cons]
        change (callExitBootServices p n imageHandle mapKey returnAddress (depth + 2) s).bind _ = _
        rw [hcall]
        exact hrun
      · rw [hlog', hlog, List.append_assoc]
      · rw [firmwareCalls_append, hcalls, hcalls']
        rfl
      · exact (hbracketed protocol hsome).append (hbracketed' protocol hsome)

theorem constructor_hooked (p : ErrataPlatform) (createEventEx : Bool)
    (locateProtocol : Option MemoryAttribute) (mem : Arm64.Memory) :
    Hooked p (kernelErrataPatcherLibConstructor p createEventEx locateProtocol mem) :=
  ⟨rfl, .inl rfl, Nat.zero_le _, fun _ => rfl⟩

/-- Whatever happens in whatever order, every call through the table comes back from the
firmware, which gets each of them once and with its arguments; the checksum of the table is
right, and winload was unprotected at most once. -/
theorem hook_transparent (halign : RoundsToPages p.alignValue) (hn : 2 ^ 32 ≤ n)
    (createEventEx : Bool) (locateProtocol : Option MemoryAttribute) (mem : Arm64.Memory)
    (calls : List BootCall) :
    ∃ s, run p n (depth + 2)
        (kernelErrataPatcherLibConstructor p createEventEx locateProtocol mem) calls = some s ∧
      firmwareCalls s.log = requestedCalls calls ∧
      s.crc32 = p.calculateCrc32 s.exitBootServices ∧ clearings s.log ≤ 1 := by
  obtain ⟨s, new, hrun, hhooked, hlog, hcalls, -⟩ :=
    @run_spec p n depth _ halign hn
      (constructor_hooked p createEventEx locateProtocol mem) calls
  have hnew : s.log = new := hlog
  exact ⟨s, hrun, hnew ▸ hcalls, hhooked.crc32, hhooked.once⟩

/-- A platform with the errata patches of the first kind. -/
def actlrEl1Platform : ErrataPlatform :=
  ⟨alignUp, fun _ => 0, errataPatchesLib ⟨true, false, false, false⟩⟩

/-- The loader has to call a second time. -/
theorem hook_transparent_retry :
    ∃ s, run actlrEl1Platform (2 ^ 32) 2
        (kernelErrataPatcherLibConstructor actlrEl1Platform true none imageBehind)
        [.readyToBoot, .exitBootServices 1 2 0x401800, .exitBootServices 1 3 0x401800] = some s ∧
      firmwareCalls s.log = [(1, 2), (1, 3)] := by
  obtain ⟨s, hrun, hcalls, -⟩ := @hook_transparent actlrEl1Platform (2 ^ 32) 0
    alignUp_roundsToPages le_rfl true none imageBehind
    [.readyToBoot, .exitBootServices 1 2 0x401800, .exitBootServices 1 3 0x401800]
  exact ⟨s, hrun, hcalls⟩

theorem Bracketed.of_append {protocol : MemoryAttribute}
    {range : Option (Address × BitVec 64 × Bool)} {before rest : List HookAction}
    (h : Bracketed protocol range (before ++ .exitBootServices imageHandle mapKey :: rest)) :
    Bracketed protocol range before := by
  induction before generalizing range with
  | nil =>
    cases h
    exact .nil
  | cons action before ih =>
    cases h with
    | clear h => exact .clear (ih h)
    | store h => exact .store (ih h)
    | set h => exact .set (ih h)
    | exit h => exact .exit (ih h)

/-- What is left unprotected: the ranges whose protection was taken off and cannot be put on. -/
theorem Bracketed.mem_unprotected {protocol : MemoryAttribute}
    {range : Option (Address × BitVec 64 × Bool)} {log : List HookAction}
    (h : Bracketed protocol range log) {ranges : List (Address × BitVec 64)}
    (hranges : ∀ r ∈ ranges, (protocol.setMemoryAttributes r.1 r.2).isOk = false ∨
      range = some (r.1, r.2, true)) (r : Address × BitVec 64) :
    r ∈ log.foldl unprotect ranges ↔
      (protocol.setMemoryAttributes r.1 r.2).isOk = false ∧
        (r ∈ ranges ∨ .clearMemoryAttributes r.1 r.2 true ∈ log) := by
  induction h generalizing ranges with
  | nil =>
    constructor
    · intro hr
      exact ⟨(hranges r hr).resolve_right (Option.some_ne_none _).symm, .inl hr⟩
    · rintro ⟨-, hr | hr⟩
      · exact hr
      · cases hr
  | @clear base length done log _ ih =>
    cases done with
    | false =>
      rw [List.foldl_cons, unprotect, if_neg Bool.false_ne_true, ih fun r hr =>
        .inl ((hranges r hr).resolve_right (Option.some_ne_none _).symm)]
      simp
    | true =>
      rw [List.foldl_cons, unprotect, if_pos rfl, ih fun r hr => ?_]
      · simp only [List.mem_cons, HookAction.clearMemoryAttributes.injEq, and_true, or_assoc,
          Prod.ext_iff]
        tauto
      · obtain rfl | hr := List.mem_cons.mp hr
        · exact .inr rfl
        · exact .inl ((hranges r hr).resolve_right (Option.some_ne_none _).symm)
  | store _ ih =>
    rw [List.foldl_cons, unprotect, ih hranges]
    simp
  | @set base length done log _ ih =>
    have hothers : ∀ r ∈ ranges, r ≠ (base, length) →
        (protocol.setMemoryAttributes r.1 r.2).isOk = false := by
      intro r hr hne
      refine (hranges r hr).resolve_right fun hsame => hne ?_
      obtain ⟨rfl, rfl, -⟩ : base = r.1 ∧ length = r.2 ∧ done = true := by simpa using hsame
      rfl
    rw [List.foldl_cons]
    cases hdone : (protocol.setMemoryAttributes base length).isOk with
    | false =>
      rw [unprotect, if_neg Bool.false_ne_true, ih fun r hr => ?_]
      · simp
      · by_cases hsame : r = (base, length)
        · rw [hsame]
          exact .inl hdone
        · exact .inl (hothers r hr hsame)
    | true =>
      rw [unprotect, if_pos rfl, ih fun r hr => ?_]
      · have hne : (protocol.setMemoryAttributes r.1 r.2).isOk = false → r ≠ (base, length) := by
          rintro hfails rfl
          rw [hdone] at hfails
          cases hfails
        simp only [List.mem_filter, decide_not, Bool.not_eq_true', decide_eq_false_iff_not,
          List.mem_cons, reduceCtorEq, false_or]
        tauto
      · obtain ⟨hmem, hne⟩ := List.mem_filter.mp hr
        exact .inl (hothers r hmem (of_decide_eq_true hne))
  | exit _ ih =>
    rw [List.foldl_cons, unprotect, ih hranges]
    simp

/-- With the protocol at hand, winload is only written while its protection is off, and the
protocol is asked to put that on again before the firmware is called. It is on then exactly if the
protocol succeeded for each range whose protection it had taken off. -/
theorem winload_reprotected (halign : RoundsToPages p.alignValue) (hn : 2 ^ 32 ≤ n)
    (protocol : MemoryAttribute) (mem : Arm64.Memory) (calls : List BootCall)
    (h : run p n (depth + 2)
      (kernelErrataPatcherLibConstructor p true (some protocol) mem) calls = some s) :
    Bracketed protocol none s.log ∧
      ∀ before imageHandle mapKey rest,
        s.log = before ++ .exitBootServices imageHandle mapKey :: rest →
        (unprotected before = [] ↔ ∀ base length, .clearMemoryAttributes base length true ∈ before →
          (protocol.setMemoryAttributes base length).isOk = true) := by
  obtain ⟨s', new, hrun, -, hlog, -, hbracketed⟩ :=
    @run_spec p n depth _ halign hn (constructor_hooked p true (some protocol) mem) calls
  obtain rfl : s = s' := Option.some.inj (h.symm.trans hrun)
  have hnew : s.log = new := hlog
  have hall : Bracketed protocol none s.log := hnew ▸ hbracketed protocol rfl
  refine ⟨hall, fun before imageHandle mapKey rest hsplit => ?_⟩
  rw [hsplit] at hall
  have hnone : ∀ r ∈ ([] : List (Address × BitVec 64)),
      (protocol.setMemoryAttributes r.1 r.2).isOk = false ∨
        (none : Option (Address × BitVec 64 × Bool)) = some (r.1, r.2, true) :=
    fun r hr => absurd hr List.not_mem_nil
  have hleft := hall.of_append.mem_unprotected hnone
  rw [List.eq_nil_iff_forall_not_mem]
  constructor
  · intro hnone base length hclear
    by_contra hfails
    exact hnone (base, length)
      ((hleft (base, length)).mpr ⟨Bool.eq_false_iff.mpr hfails, .inr hclear⟩)
  · intro hdone r hr
    obtain ⟨hfails, hmem | hclear⟩ := (hleft r).mp hr
    · cases hmem
    · rw [hdone r.1 r.2 hclear] at hfails
      cases hfails

theorem winload_reprotected_imageBehind :
    ∃ s, run actlrEl1Platform (2 ^ 32) 2
        (kernelErrataPatcherLibConstructor actlrEl1Platform true
          (some ⟨fun _ _ => .ok (), fun _ _ => .ok ()⟩) imageBehind)
        [.readyToBoot, .exitBootServices 1 2 0x403800] = some s ∧
      ∀ before rest, s.log = before ++ .exitBootServices 1 2 :: rest → unprotected before = [] := by
  obtain ⟨s, -, hrun, -⟩ := @run_spec actlrEl1Platform (2 ^ 32) 0 _ alignUp_roundsToPages le_rfl
    (constructor_hooked actlrEl1Platform true
      (some ⟨fun _ _ => .ok (), fun _ _ => .ok ()⟩) imageBehind)
    [.readyToBoot, .exitBootServices 1 2 0x403800]
  have hreprotected := (@winload_reprotected actlrEl1Platform (2 ^ 32) 0 s alignUp_roundsToPages
    le_rfl ⟨fun _ _ => .ok (), fun _ _ => .ok ()⟩ imageBehind _ hrun).2
  exact ⟨s, hrun, fun before rest hsplit =>
    (hreprotected before 1 2 rest hsplit).mpr fun _ _ _ => rfl⟩

end KernelErrata

end ProjectMu
