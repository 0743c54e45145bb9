import ProjectMu.ShellCodeActlr
import ProjectMu.ShellCodeAmcn
import ProjectMu.ShellCodePsci
import ProjectMu.ShellCodeInstall
import ProjectMu.ShellCodeModules

/-!
# The blocks and their references on one module

On a load order list with one module, each block of the shell code leaves the memory that the
reference implementation leaves, and ends where its code ends.
-/

namespace ProjectMu

open Arm64

inductive ShellCodeBlock
  | actlrEl1
  | amcntenset0El0
  | irmX8
  | psciMemprotect
  deriving DecidableEq

namespace ShellCodeBlock

def code : ShellCodeBlock → List (BitVec 8)
  | actlrEl1 => actlrEl1Code
  | amcntenset0El0 => amcntenset0El0Code
  | irmX8 => irmX8Code
  | psciMemprotect => psciMemprotectCode

def program : ShellCodeBlock → List Instr
  | actlrEl1 => actlrEl1Program
  | amcntenset0El0 => amcntenset0El0Program
  | irmX8 => irmX8Program
  | psciMemprotect => psciMemprotectProgram

def reference : ShellCodeBlock → ℕ → Address → Arm64.Memory → Option Arm64.Memory
  | actlrEl1 => actlrEl1Reference
  | amcntenset0El0 => amcntenset0El0Reference
  | irmX8 => irmX8Reference
  | psciMemprotect => psciMemprotectReference

/-- The erratum that puts the block into the shell code. -/
def flag : ShellCodeBlock → ErrataFlags → Bool
  | actlrEl1, flags => flags.actlrEl1Unimplemented
  | amcntenset0El0, flags => flags.amcntenset0El0Unimplemented
  | irmX8, flags => flags.gicV3WithoutIrmFlagSupport
  | psciMemprotect, flags => flags.psciMemprotectFailing

/-- The part of the shell code in front of the block. -/
def before : ShellCodeBlock → ErrataFlags → List (BitVec 8)
  | actlrEl1, _ => []
  | amcntenset0El0, flags => if flags.actlrEl1Unimplemented then actlrEl1Code else []
  | irmX8, flags =>
    (if flags.actlrEl1Unimplemented then actlrEl1Code else []) ++
    (if flags.amcntenset0El0Unimplemented then amcntenset0El0Code else []) ++ irmCode
  | psciMemprotect, flags =>
    (if flags.actlrEl1Unimplemented then actlrEl1Code else []) ++
    (if flags.amcntenset0El0Unimplemented then amcntenset0El0Code else []) ++
    (if flags.gicV3WithoutIrmFlagSupport then irmCode ++ irmX8Code else [])

theorem code_encodes (block : ShellCodeBlock) : Encodes block.code block.program := by
  cases block with
  | actlrEl1 => exact actlrEl1Code_encodes
  | amcntenset0El0 => exact amcntenset0El0Code_encodes
  | irmX8 => exact irmX8Code_encodes
  | psciMemprotect => exact psciMemprotectCode_encodes

theorem length_code (block : ShellCodeBlock) : block.code.length = 4 * block.program.length := by
  cases block <;> decide +kernel

theorem transferToKernelShellCode_eq {block : ShellCodeBlock} {flags : ErrataFlags}
    (h : block.flag flags = true) :
    ∃ after, transferToKernelShellCode flags = block.before flags ++ block.code ++ after := by
  cases block with
  | actlrEl1 =>
    rw [transferToKernelShellCode, if_pos (c := flags.actlrEl1Unimplemented = true) h,
      List.append_assoc, List.append_assoc]
    exact ⟨_, rfl⟩
  | amcntenset0El0 =>
    rw [transferToKernelShellCode, if_pos (c := flags.amcntenset0El0Unimplemented = true) h,
      List.append_assoc]
    exact ⟨_, rfl⟩
  | irmX8 =>
    rw [transferToKernelShellCode, if_pos (c := flags.gicV3WithoutIrmFlagSupport = true) h,
      ← List.append_assoc _ irmCode]
    exact ⟨_, rfl⟩
  | psciMemprotect =>
    rw [transferToKernelShellCode, if_pos (c := flags.psciMemprotectFailing = true) h]
    exact ⟨[], (List.append_nil _).symm⟩

end ShellCodeBlock

/-- Outside the image of a module, the 0xA8 bytes before it and the 16 after it. -/
def OutsideImage (mem : Arm64.Memory) (entry a : Address) : Prop :=
  0xA8 + (sizeOfImage mem entry).toNat + 0x10 ≤ (a - (dllBase mem entry - 0xA8)).toNat

/-- A store that starts up to 0xA8 bytes before a word and ends with it stays inside. -/
theorem OutsideImage.store {mem : Arm64.Memory} {entry a : Address} {k back n : ℕ}
    (h : OutsideImage mem entry a) (hk : k < wordCount (sizeOfImage mem entry).toNat)
    (hback : back ≤ 0xA8) (hn : n ≤ back + 4) :
    n ≤ (a - (word (dllBase mem entry) k - BitVec.ofNat 64 back)).toNat := by
  rw [OutsideImage] at h
  have hlt := (a - (dllBase mem entry - 0xA8)).isLt
  have hcount : wordCount (sizeOfImage mem entry).toNat = ((sizeOfImage mem entry).toNat + 3) / 4 :=
    rfl
  have hsub : a - (word (dllBase mem entry) k - BitVec.ofNat 64 back) =
      a - (dllBase mem entry - 0xA8) - BitVec.ofNat 64 (0xA8 - back + 4 * k) := by
    have hsum : BitVec.ofNat 64 back + BitVec.ofNat 64 (0xA8 - back + 4 * k) =
        0xA8 + BitVec.ofNat 64 (4 * k) := by
      rw [← BitVec.ofNat_add, ← Nat.add_assoc, Nat.add_sub_cancel' hback, BitVec.ofNat_add]
      rfl
    rw [word]
    grind
  have hoffset : (BitVec.ofNat 64 (0xA8 - back + 4 * k)).toNat = 0xA8 - back + 4 * k :=
    (BitVec.toNat_ofNat ..).trans (Nat.mod_eq_of_lt (by omega))
  rw [hsub, BitVec.toNat_sub_of_le (by rw [BitVec.le_def, hoffset]; omega), hoffset]
  omega

theorem OutsideImage.word {mem : Arm64.Memory} {entry a : Address} {k : ℕ}
    (h : OutsideImage mem entry a) (hk : k < wordCount (sizeOfImage mem entry).toNat) :
    4 ≤ (a - Arm64.word (dllBase mem entry) k).toNat := by
  have hstore := h.store hk (Nat.zero_le _) (Nat.le_refl 4)
  rwa [BitVec.sub_zero] at hstore

/-- One module in the list, and addresses outside of its image that hold at least the link of
its entry. -/
structure OneModule (P : Set Address) (c : Core) (entry : Address) : Prop where
  follows : Follows c.mem (loadOrderListHead (c.x 0)) (loadOrderListHead (c.x 0)) [entry]
  nonWrapping : NonWrapping (dllBase c.mem entry) (sizeOfImage c.mem entry).toNat
  node : ∀ k, k < 8 → entry + BitVec.ofNat 64 k ∈ P
  outside : ∀ a ∈ P, OutsideImage c.mem entry a

section
variable {P : Set Address} {c : Core} {entry : Address}

/-- The loop over the modules ends after the only one, if its link is still there. -/
theorem forModules_one {σ : Type*} {mem : σ → Arm64.Memory} {body : Address → σ → σ × Bool}
    {osLoaderBlock : Address} {s s' : σ} {N : ℕ}
    (hentry : (mem s).read64 (loadOrderListHead osLoaderBlock) = entry)
    (hne : entry ≠ loadOrderListHead osLoaderBlock)
    (hloop : ∀ n, N < n → forWords body
      (dllBase (mem s) entry + (sizeOfImage (mem s) entry).setWidth 64) n (dllBase (mem s) entry)
        s = some s')
    (hlink : (mem s').read64 entry = loadOrderListHead osLoaderBlock) {n : ℕ} (hn : N + 1 < n) :
    forModules mem body n osLoaderBlock s = some s' := by
  obtain ⟨n, rfl⟩ : ∃ k, n = k + 2 := ⟨n - 2, by omega⟩
  rw [forModules, hentry, forEntries, if_neg hne, hloop (n + 1) (by omega), Option.bind_some,
    forEntries, if_pos hlink]

/-- A block whose loop only changes memory. -/
theorem OneModule.refines_memory (h : OneModule P c entry) {p : List Instr} {e : ℕ}
    {body : Address → Arm64.Memory → Arm64.Memory}
    (hruns : ∀ n m, forWords (fun a m => (body a m, false))
      (dllBase c.mem entry + (sizeOfImage c.mem entry).setWidth 64) n (dllBase c.mem entry) c.mem =
        some m → ∃ c', Runs p P 0 c e c' ∧ c'.mem = m) :
    ∃ c', Runs p P 0 c e c' ∧ ∃ N, ∀ n, N < n →
      forModules id (fun a m => (body a m, false)) n (c.x 0) c.mem = some c'.mem := by
  obtain ⟨hentry, hne, hlink⟩ := h.follows
  obtain ⟨m, hloop⟩ := h.nonWrapping.forWords_ends (fun a m => (body a m, false)) c.mem
  rw [BitVec.ofNat_toNat] at hloop
  obtain ⟨c', hrun, hmem⟩ := hruns _ m (hloop _ (Nat.lt_succ_self _))
  have hkept : m.read64 entry = loadOrderListHead (c.x 0) := by
    rw [← hmem, Memory.read64_congr fun k hk => hrun.keeps _ (h.node k hk), hlink]
  refine ⟨c', hrun, wordCount (sizeOfImage c.mem entry).toNat + 1, fun n hn => ?_⟩
  rw [hmem]
  exact @forModules_one entry Arm64.Memory id (fun a m => (body a m, false)) (c.x 0) c.mem m _
    hentry hne hloop hkept n hn

theorem OneModule.irmX8_refines (h : OneModule P c entry) :
    ∃ c', Runs irmX8Program P 0 c 104 c' ∧ ∃ N, ∀ n, N < n →
      irmX8Reference n (c.x 0) c.mem = some c'.mem := by
  obtain ⟨hentry, hne, hlink⟩ := h.follows
  obtain ⟨s, hloop⟩ := h.nonWrapping.forWords_ends irmX8Body ⟨c.mem, 0, 0⟩
  have hsearched := irmX8_searched h.nonWrapping (hloop _ (Nat.lt_succ_self _))
  rw [BitVec.ofNat_toNat] at hloop
  have hkeep (k) (hk : k < wordCount (sizeOfImage c.mem entry).toNat) (a) (ha : a ∈ P) :
      4 ≤ (a - word (dllBase c.mem entry) k).toNat ∧
        0x5C ≤ (a - (word (dllBase c.mem entry) k - 0xA8)).toNat :=
    ⟨(h.outside a ha).word hk, (h.outside a ha).store hk (Nat.le_refl 0xA8) (by decide)⟩
  obtain ⟨c', hrun, hmem⟩ :=
    irmX8_runs hentry hne h.nonWrapping hkeep (hloop _ (Nat.lt_succ_self _))
  refine ⟨c', hrun, wordCount (sizeOfImage c.mem entry).toNat + 1, fun n hn => ?_⟩
  have hlink' : s.mem.read64 entry = loadOrderListHead (c.x 0) := by
    rw [hsearched.mem, hlink]
  have hmodules := @forModules_one entry IrmSearch IrmSearch.mem irmX8Body (c.x 0) ⟨c.mem, 0, 0⟩ s _
    hentry hne hloop hlink' n hn
  rw [irmX8Reference, hmodules, hmem, Option.map_some]

theorem OneModule.refines (h : OneModule P c entry) (block : ShellCodeBlock) :
    ∃ c', Runs block.program P 0 c block.program.length c' ∧ ∃ N, ∀ n, N < n →
      block.reference n (c.x 0) c.mem = some c'.mem := by
  obtain ⟨hentry, hne, -⟩ := h.follows
  cases block with
  | actlrEl1 =>
    exact h.refines_memory fun n m hloop => actlrEl1_runs hentry hne h.nonWrapping
      (fun k hk a ha => (h.outside a ha).word hk) hloop
  | amcntenset0El0 =>
    exact h.refines_memory fun n m hloop => amcntenset0El0_runs hentry hne h.nonWrapping
      (fun k hk a ha => (h.outside a ha).word hk) hloop
  | irmX8 => exact h.irmX8_refines
  | psciMemprotect =>
    refine h.refines_memory fun n m hloop => psciMemprotect_runs hentry hne h.nonWrapping
      (fun k hk a ha => ?_) hloop
    exact ⟨@OutsideImage.store _ _ _ k 0x20 4 (h.outside a ha) hk (by omega) (by omega),
      @OutsideImage.store _ _ _ k 0x1C 4 (h.outside a ha) hk (by omega) (by omega)⟩

end

/-- The two links of a list entry. -/
def InLinks (entry a : Address) : Prop := (a - entry).toNat < 0x10

/-- The machine is at the first instruction of a block of the shell code, whose erratum the
platform has, and the load order list has one module. A 4-aligned image that does not go
beyond the end of the address space is `NonWrapping`. -/
structure ShellCodeBlock.Ready (block : ShellCodeBlock) (flags : ErrataFlags) (start : Address)
    (s : State) (entry : Address) : Prop where
  flag : block.flag flags = true
  holdsCode : HoldsCode s.core.mem start (transferToKernelShellCode flags)
  pc : s.pc = start + BitVec.ofNat 64 (block.before flags).length
  follows :
    Follows s.core.mem (loadOrderListHead (s.core.x 0)) (loadOrderListHead (s.core.x 0)) [entry]
  nonWrapping : NonWrapping (dllBase s.core.mem entry) (sizeOfImage s.core.mem entry).toNat
  outsideCode : ∀ a, InCode s.pc block.code a → OutsideImage s.core.mem entry a
  outsideLinks : ∀ a, InLinks entry a → OutsideImage s.core.mem entry a

theorem ShellCodeBlock.keeps_registers (block : ShellCodeBlock) :
    ∀ r ∈ [0, 1, 30, 31], ∀ instr ∈ block.program, r ∉ instr.dests := by
  cases block <;> decide +kernel

/-- A block of the shell code refines its reference on one module: it comes to the end of its
code with the memory that the reference leaves, and with `x0`, `x1`, `x30` and the stack pointer
as before. -/
theorem shellCodeBlock_refines (block : ShellCodeBlock) (flags : ErrataFlags) (start : Address)
    (s : State) (entry : Address) (h : block.Ready flags start s entry) :
    ∃ s', Executes s (s.pc + BitVec.ofNat 64 block.code.length) s' ∧
      (∃ N, ∀ n, N < n → block.reference n (s.core.x 0) s.core.mem = some s'.core.mem) ∧
      s'.core.x 0 = s.core.x 0 ∧ s'.core.x 1 = s.core.x 1 ∧ s'.core.x 30 = s.core.x 30 ∧
      s'.core.sp = s.core.sp := by
  obtain ⟨after, hcode⟩ := ShellCodeBlock.transferToKernelShellCode_eq h.flag
  have hholds := h.holdsCode
  rw [hcode] at hholds
  have hblock : HoldsCode s.core.mem s.pc block.code := by
    rw [h.pc]
    exact hholds.append_left.append_right
  let P : Set Address := {a | InCode s.pc block.code a ∨ InLinks entry a}
  have hone : OneModule P s.core entry := by
    refine ⟨h.follows, h.nonWrapping, fun k hk => .inr ?_, ?_⟩
    · rw [InLinks, offset_sub, BitVec.toNat_ofNat]
      omega
    · rintro a (ha | ha)
      · exact h.outsideCode a ha
      · exact h.outsideLinks a ha
  obtain ⟨c', hrun, hreference⟩ := hone.refines block
  have hlength : 4 * block.program.length < 2 ^ 64 := by
    cases block <;> decide
  have hP (k) (hk : k < block.code.length) : s.pc + BitVec.ofNat 64 k ∈ P := by
    refine .inl ?_
    rw [block.length_code] at hk
    rw [InCode, offset_sub, BitVec.toNat_ofNat, block.length_code]
    omega
  have hexec := hrun.executes_all block.code_encodes hlength hblock hP
  rw [← block.length_code] at hexec
  have hkeeps := block.keeps_registers
  exact ⟨_, hexec, hreference, hrun.x_eq (hkeeps 0 (by decide)), hrun.x_eq (hkeeps 1 (by decide)),
    hrun.x_eq (hkeeps 30 (by decide)), hrun.sp_eq (hkeeps 31 (by decide))⟩

def irmErratum : ErrataFlags := ⟨false, false, true, false⟩

/-- A module of four words at 0x2000, with the instruction that is looked for and the function,
and the shell code at 0x1000. -/
def oneModule : State where
  pc := 0x11A0
  core :=
    { x := fun _ => 0
      sp := 0
      flags := ⟨false, false, false, false⟩
      mem :=
        let code : Arm64.Memory := fun a =>
          (transferToKernelShellCode irmErratum).getD (a - 0x1000).toNat 0
        let links := (code.write 0x10 8 0x100).write 0x100 8 0x10
        let entry := (links.write 0x130 8 0x2000).write 0x140 4 0x10
        (entry.write 0x2000 4 0xD518CBA8).write 0x2008 8 0x0009001600090003 }

theorem oneModule_holdsCode :
    HoldsCode oneModule.core.mem 0x1000 (transferToKernelShellCode irmErratum) := by
  have hlength : (transferToKernelShellCode irmErratum).length = 0x340 := by decide +kernel
  let stores : List (Address × ℕ × BitVec 64) :=
    [(0x10, 8, 0x100), (0x100, 8, 0x10), (0x130, 8, 0x2000), (0x140, 4, 0x10),
      (0x2000, 4, 0xD518CBA8), (0x2008, 8, 0x0009001600090003)]
  refine HoldsCode.foldl_write stores (holdsCode_getD ?_) ?_ ?_
  all_goals rw [hlength]
  · omega
  · change 0x1340 ≤ 2 ^ 64
    omega
  · simp [stores]

theorem oneModule_image :
    dllBase oneModule.core.mem 0x100 = 0x2000 ∧ sizeOfImage oneModule.core.mem 0x100 = 0x10 := by
  decide +kernel

theorem oneModule_ready : ShellCodeBlock.irmX8.Ready irmErratum 0x1000 oneModule 0x100 := by
  obtain ⟨hbase, hsize⟩ := oneModule_image
  have hlength : ShellCodeBlock.irmX8.code.length = 0x1A0 := by decide +kernel
  refine ⟨rfl, oneModule_holdsCode, by decide +kernel, ?_, ?_, fun a ha => ?_, fun a ha => ?_⟩
  · have hlink : oneModule.core.mem.read64 0x100 = 0x10 := by decide +kernel
    exact ⟨by decide +kernel, by decide, hlink⟩
  · rw [hbase, hsize]
    exact .of_aligned ⟨4, rfl⟩ (by change 0x2010 ≤ 2 ^ 64; omega)
  · rw [InCode, hlength] at ha
    have hin : (a - 0x11A0).toNat < 0x1A0 := ha
    rw [OutsideImage, hbase, hsize]
    change 0xC8 ≤ (a - 0x1F58).toNat
    bv_omega
  · have hin : (a - 0x100).toNat < 0x10 := ha
    rw [OutsideImage, hbase, hsize]
    change 0xC8 ≤ (a - 0x1F58).toNat
    bv_omega

theorem shellCodeBlock_refines_oneModule :
    ∃ s', Executes oneModule (oneModule.pc + BitVec.ofNat 64 irmX8Code.length) s' ∧
      (∃ N, ∀ n, N < n → irmX8Reference n (oneModule.core.x 0) oneModule.core.mem =
        some s'.core.mem) ∧
      s'.core.x 0 = oneModule.core.x 0 ∧ s'.core.x 1 = oneModule.core.x 1 ∧
      s'.core.x 30 = oneModule.core.x 30 ∧ s'.core.sp = oneModule.core.sp :=
  shellCodeBlock_refines .irmX8 irmErratum 0x1000 oneModule 0x100 oneModule_ready

end ProjectMu
