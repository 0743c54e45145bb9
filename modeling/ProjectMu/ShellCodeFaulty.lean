import ProjectMu.ShellCodeActlr
import ProjectMu.ShellCodeAmcn
import ProjectMu.ShellCodeModules

/-!
# Which modules the first two blocks clean

Both blocks go to their end after the first entry of the load order list. That module is
left without a faulty instruction, and every other module as it was.
-/

namespace ProjectMu

open Arm64

/-- The instructions that fault on a platform with both errata. -/
def Faulty (w : BitVec 32) : Prop :=
  w = 0xD5381028 ∨ w = 0xD5181028 ∨ w = 0xD5181029 ∨ w = 0xD53BD2A8

instance (w : BitVec 32) : Decidable (Faulty w) := inferInstanceAs (Decidable (_ ∨ _))

/-- No word of a module, at its place in `mem`, is faulty in `mem'`. -/
def Clean (mem mem' : Arm64.Memory) (entry : Address) : Prop :=
  ∀ k, k < wordCount (sizeOfImage mem entry).toNat →
    ¬Faulty (mem'.read32 (word (dllBase mem entry) k))

def actlrEl1Word (w : BitVec 32) : BitVec 32 :=
  if w = 0xD5381028 then 0xD2800008
  else if w = 0xD5181028 ∨ w = 0xD5181029 then 0xD503201F
  else w

def amcntenset0El0Word (w : BitVec 32) : BitVec 32 := if w = 0xD53BD2A8 then 0xD2800008 else w

theorem actlrEl1Body_wordLocal : WordLocal actlrEl1Body actlrEl1Word := by
  refine ⟨fun a m => ?_, fun a m x hx => ?_⟩
  · rw [actlrEl1Body, actlrEl1Word]
    split_ifs
    · exact Memory.read32_write_self.trans (by decide)
    · exact Memory.read32_write_self.trans (by decide)
    · rfl
  · rw [actlrEl1Body]
    split_ifs
    · exact Memory.write_of_le hx
    · exact Memory.write_of_le hx
    · rfl

theorem amcntenset0El0Body_wordLocal : WordLocal amcntenset0El0Body amcntenset0El0Word := by
  refine ⟨fun a m => ?_, fun a m x hx => ?_⟩
  · rw [amcntenset0El0Body, amcntenset0El0Word]
    split_ifs
    · exact Memory.read32_write_self.trans (by decide)
    · rfl
  · rw [amcntenset0El0Body]
    split_ifs
    · exact Memory.write_of_le hx
    · rfl

theorem not_faulty_both (w : BitVec 32) : ¬Faulty (amcntenset0El0Word (actlrEl1Word w)) := by
  rw [actlrEl1Word]
  split_ifs with hread hwrite
  · decide
  · decide
  · rw [amcntenset0El0Word]
    split_ifs with hother
    · decide
    · rw [Faulty]
      tauto

/-- The shell code as the errata flags make it: both blocks first. -/
def actlrAmcnProgram : List Instr := actlrEl1Program ++ amcntenset0El0Program

theorem actlrAmcnCode_encodes :
    Encodes (actlrEl1Code ++ amcntenset0El0Code) actlrAmcnProgram := by
  decide +kernel

theorem length_actlrAmcnCode : (actlrEl1Code ++ amcntenset0El0Code).length = 0x100 := by
  decide +kernel

theorem actlrEl1Program_keeps_x0 : ∀ instr ∈ actlrEl1Program, 0 ∉ instr.dests := by
  decide

/-- With an entry in the list, both blocks run over its module, one after the other. -/
theorem actlrAmcn_runs {P : Set Address} {c : Core} {entry : Address}
    (hentry : c.mem.read64 (loadOrderListHead (c.x 0)) = entry)
    (hne : entry ≠ loadOrderListHead (c.x 0))
    (hfit : Fits (dllBase c.mem entry) (sizeOfImage c.mem entry).toNat)
    (hP : ∀ a ∈ P, ¬InImage c.mem entry a) (hhead : ∀ a, InListHead (c.x 0) a → a ∈ P)
    (hnode : ∀ a, InEntry entry a → a ∈ P) :
    ∃ c', Runs actlrAmcnProgram P 0 c 64 c' ∧ Clean c.mem c'.mem entry := by
  have hkeep (k) (hk : k < wordCount (sizeOfImage c.mem entry).toNat) (a) (ha : a ∈ P) :
      4 ≤ (a - word (dllBase c.mem entry) k).toNat :=
    outside_word hk (Nat.not_lt.mp (hP a ha))
  obtain ⟨m₁, hloop₁⟩ := forWords_ends hfit (fun a m => (actlrEl1Body a m, false)) c.mem
    (Nat.lt_succ_self _)
  obtain ⟨c₁, hrun₁, rfl⟩ := actlrEl1_runs hentry hne (fun _ => hfit) hkeep
    (by rw [← BitVec.ofNat_toNat]; exact hloop₁)
  have hx : c₁.x 0 = c.x 0 := hrun₁.x_eq actlrEl1Program_keeps_x0
  have hbase : dllBase c₁.mem entry = dllBase c.mem entry :=
    dllBase_congr fun a ha => hrun₁.keeps a (hnode a ha)
  have hsize : sizeOfImage c₁.mem entry = sizeOfImage c.mem entry :=
    sizeOfImage_congr fun a ha => hrun₁.keeps a (hnode a ha)
  have hentry₁ : c₁.mem.read64 (loadOrderListHead (c₁.x 0)) = entry := by
    rw [hx, firstEntry_congr fun a ha => hrun₁.keeps a (hhead a ha), hentry]
  obtain ⟨m₂, hloop₂⟩ := forWords_ends hfit (fun a m => (amcntenset0El0Body a m, false)) c₁.mem
    (Nat.lt_succ_self _)
  obtain ⟨c₂, hrun₂, rfl⟩ := amcntenset0El0_runs hentry₁ (by rwa [hx])
    (by rw [hbase, hsize]; exact fun _ => hfit) (by rwa [hbase, hsize])
    (by rw [hbase, hsize, ← BitVec.ofNat_toNat]; exact hloop₂)
  refine ⟨c₂, (hrun₁.append _).trans (hrun₂.prepend actlrEl1Program), fun k hk => ?_⟩
  rw [amcntenset0El0Body_wordLocal.forWords hfit hloop₂ hk,
    actlrEl1Body_wordLocal.forWords hfit hloop₁ hk]
  exact not_faulty_both _

theorem actlrAmcn_runs_empty {P : Set Address} {c : Core}
    (h : c.mem.read64 (loadOrderListHead (c.x 0)) = loadOrderListHead (c.x 0)) :
    ∃ c', Runs actlrAmcnProgram P 0 c 64 c' ∧ c'.mem = c.mem := by
  obtain ⟨c₁, hrun₁, hmem₁⟩ := actlrEl1_runs_empty (P := P) h
  have hx : c₁.x 0 = c.x 0 := hrun₁.x_eq actlrEl1Program_keeps_x0
  obtain ⟨c₂, hrun₂, hmem₂⟩ := amcntenset0El0_runs_empty (P := P) (by rwa [hx, hmem₁])
  exact ⟨c₂, (hrun₁.append _).trans (hrun₂.prepend actlrEl1Program), hmem₂.trans hmem₁⟩

theorem transferToKernelShellCode_blocks {flags : ErrataFlags}
    (hactlr : flags.actlrEl1Unimplemented = true)
    (hamcn : flags.amcntenset0El0Unimplemented = true) :
    ∃ rest, transferToKernelShellCode flags = (actlrEl1Code ++ amcntenset0El0Code) ++ rest := by
  rw [transferToKernelShellCode, hactlr, hamcn, List.append_assoc]
  exact ⟨_, rfl⟩

/-- What the two blocks leave: the first module clean and the others as they were. -/
theorem actlrAmcn_executes {flags : ErrataFlags} {s : State} {entries : List Address}
    (hactlr : flags.actlrEl1Unimplemented = true)
    (hamcn : flags.amcntenset0El0Unimplemented = true)
    (hcode : HoldsCode s.core.mem s.pc (transferToKernelShellCode flags))
    (hlist : LoadOrderList s.core.mem (s.core.x 0) entries)
    (hapart : ∀ entry ∈ entries, ∀ a, InImage s.core.mem entry a →
      ¬InCode s.pc (transferToKernelShellCode flags) a) :
    ∃ s', Executes s (s.pc + 0x100) s' ∧
      (∀ entry ∈ entries.head?, Clean s.core.mem s'.core.mem entry) ∧
      ∀ entry ∈ entries.tail, ∀ a, InImage s.core.mem entry a →
        s'.core.mem a = s.core.mem a := by
  obtain ⟨rest, hrest⟩ := transferToKernelShellCode_blocks hactlr hamcn
  rw [hrest] at hcode hapart
  have hblocks := hcode.append_left
  cases entries with
  | nil =>
    obtain ⟨c', hrun, -⟩ := actlrAmcn_runs_empty (P := Set.univ) hlist.follows
    have hexec := hrun.executes_all actlrAmcnCode_encodes (by decide) hblocks
      fun _ _ => Set.mem_univ _
    exact ⟨_, hexec, nofun, nofun⟩
  | cons entry entries =>
    obtain ⟨hentry, hne, -⟩ := hlist.follows
    have hmem : entry ∈ entry :: entries := List.mem_cons_self
    have hcodeP (k) (hk : k < (actlrEl1Code ++ amcntenset0El0Code).length) :
        s.pc + BitVec.ofNat 64 k ∈ {a | ¬InImage s.core.mem entry a} := by
      intro himage
      refine hapart entry hmem _ himage ?_
      rw [InCode, offset_sub, BitVec.toNat_ofNat, List.length_append, length_actlrAmcnCode]
      rw [length_actlrAmcnCode] at hk
      omega
    obtain ⟨c', hrun, hclean⟩ := actlrAmcn_runs (P := {a | ¬InImage s.core.mem entry a}) hentry hne
      (hlist.fits entry hmem) (fun a ha => ha)
      (fun a ha himage => hlist.apartHead entry hmem a himage ha)
      (fun a ha himage => hlist.apartEntries entry hmem a himage entry hmem ha)
    have hexec := hrun.executes_all actlrAmcnCode_encodes (by decide) hblocks hcodeP
    refine ⟨_, hexec, ?_, ?_⟩
    · rintro _ ⟨⟩
      exact hclean
    · intro entry' hentry' a ha
      exact hrun.keeps a fun himage =>
        (List.rel_of_pairwise_cons hlist.apart hentry') a himage ha

def bothErrata : ErrataFlags := ⟨true, true, false, false⟩

/-- Two modules of one word each, at 0x2000 and 0x3000, and the shell code at 0x1000. The first
word is faulty, the second one if `dirty`. -/
def twoModules (dirty : Bool) : State where
  pc := 0x1000
  core :=
    { x := fun _ => 0
      sp := 0
      flags := ⟨false, false, false, false⟩
      mem :=
        let code : Arm64.Memory := fun a =>
          (transferToKernelShellCode bothErrata).getD (a - 0x1000).toNat 0
        let links := ((code.write 0x10 8 0x100).write 0x100 8 0x200).write 0x200 8 0x10
        let entries := (((links.write 0x130 8 0x2000).write 0x140 4 4).write 0x230 8 0x3000).write
          0x240 4 4
        (entries.write 0x2000 4 0xD5181028).write 0x3000 4 (if dirty then 0xD5381028 else 0) }

theorem twoModules_holdsCode : ∀ dirty,
    HoldsCode (twoModules dirty).core.mem 0x1000 (transferToKernelShellCode bothErrata) := by
  intro dirty
  have hlength : (transferToKernelShellCode bothErrata).length = 0x100 := by decide +kernel
  let stores : List (Address × ℕ × BitVec 64) :=
    [(0x10, 8, 0x100), (0x100, 8, 0x200), (0x200, 8, 0x10), (0x130, 8, 0x2000), (0x140, 4, 4),
      (0x230, 8, 0x3000), (0x240, 4, 4), (0x2000, 4, 0xD5181028),
      (0x3000, 4, if dirty then 0xD5381028 else 0)]
  refine HoldsCode.foldl_write stores (holdsCode_getD ?_) ?_ ?_
  all_goals rw [hlength]
  · omega
  · change 0x1100 ≤ 2 ^ 64
    omega
  · simp [stores]

theorem twoModules_images : ∀ dirty,
    dllBase (twoModules dirty).core.mem 0x100 = 0x2000 ∧
      sizeOfImage (twoModules dirty).core.mem 0x100 = 4 ∧
      dllBase (twoModules dirty).core.mem 0x200 = 0x3000 ∧
      sizeOfImage (twoModules dirty).core.mem 0x200 = 4 := by
  decide +kernel

theorem twoModules_links : ∀ dirty,
    (twoModules dirty).core.mem.read64 0x10 = 0x100 ∧
      (twoModules dirty).core.mem.read64 0x100 = 0x200 ∧
      (twoModules dirty).core.mem.read64 0x200 = 0x10 := by
  decide +kernel

theorem twoModules_image (dirty : Bool) {entry a : Address} (hentry : entry ∈ [0x100, 0x200])
    (ha : InImage (twoModules dirty).core.mem entry a) :
    (entry = 0x100 ∧ (a - 0x2000).toNat < 4) ∨ (entry = 0x200 ∧ (a - 0x3000).toNat < 4) := by
  obtain ⟨hbase, hsize, hbase', hsize'⟩ := twoModules_images dirty
  rcases List.mem_pair.mp hentry with rfl | rfl
  · rw [InImage, hbase, hsize] at ha
    exact .inl ⟨rfl, ha⟩
  · rw [InImage, hbase', hsize'] at ha
    exact .inr ⟨rfl, ha⟩

theorem twoModules_list (dirty : Bool) :
    LoadOrderList (twoModules dirty).core.mem 0 [0x100, 0x200] := by
  obtain ⟨hbase, hsize, hbase', hsize'⟩ := twoModules_images dirty
  obtain ⟨hhead, hnext, hlast⟩ := twoModules_links dirty
  refine ⟨⟨hhead, by decide, hnext, by decide, hlast⟩, ?_, ?_, ?_, ?_⟩
  · intro entry hentry
    rcases List.mem_pair.mp hentry with rfl | rfl
    · rw [hbase, hsize, Fits]
      decide
    · rw [hbase', hsize', Fits]
      decide
  · refine List.pairwise_pair.mpr fun a ha ha' => ?_
    rw [InImage, hbase, hsize] at ha
    rw [InImage, hbase', hsize'] at ha'
    have h : (a - 0x2000).toNat < 4 := ha
    have h' : (a - 0x3000).toNat < 4 := ha'
    bv_omega
  · intro entry hentry a ha hhead
    have hin : (a - 0x10).toNat < 0x10 := hhead
    rcases twoModules_image dirty hentry ha with ⟨-, h⟩ | ⟨-, h⟩ <;> bv_omega
  · intro entry hentry a ha entry' hentry' hnode
    have hin : (a - entry').toNat < 0x44 := hnode
    rcases List.mem_pair.mp hentry' with rfl | rfl <;>
      rcases twoModules_image dirty hentry ha with ⟨-, h⟩ | ⟨-, h⟩ <;> bv_omega

theorem twoModules_apart (dirty : Bool) {entry a : Address} (hentry : entry ∈ [0x100, 0x200])
    (ha : InImage (twoModules dirty).core.mem entry a) :
    ¬InCode 0x1000 (transferToKernelShellCode bothErrata) a := by
  intro hcode
  have hlength : (transferToKernelShellCode bothErrata).length = 0x100 := by
    decide +kernel
  rw [InCode, hlength] at hcode
  rcases twoModules_image dirty hentry ha with ⟨-, h⟩ | ⟨-, h⟩ <;> bv_omega

/-- The modules that are not first keep their faulty instructions: after the two blocks no
module has one if and only if no module after the first had one before. -/
theorem actlrAmcn_clean_iff (flags : ErrataFlags) (s : State) (entries : List Address)
    (hactlr : flags.actlrEl1Unimplemented = true)
    (hamcn : flags.amcntenset0El0Unimplemented = true)
    (hcode : HoldsCode s.core.mem s.pc (transferToKernelShellCode flags))
    (hlist : LoadOrderList s.core.mem (s.core.x 0) entries)
    (hapart : ∀ entry ∈ entries, ∀ a, InImage s.core.mem entry a →
      ¬InCode s.pc (transferToKernelShellCode flags) a) :
    ∃ s', Executes s (s.pc + 0x100) s' ∧
      ((∀ entry ∈ entries, Clean s.core.mem s'.core.mem entry) ↔
        ∀ entry ∈ entries.tail, Clean s.core.mem s.core.mem entry) := by
  obtain ⟨s', hexec, hfirst, hothers⟩ := actlrAmcn_executes hactlr hamcn hcode hlist hapart
  have hsame (entry) (hentry : entry ∈ entries.tail) :
      Clean s.core.mem s'.core.mem entry ↔ Clean s.core.mem s.core.mem entry := by
    refine forall_congr' fun k => forall_congr' fun hk => ?_
    rw [Memory.read32_congr fun i hi => hothers entry hentry _ ?_]
    rw [InImage, word, BitVec.add_assoc, ← BitVec.ofNat_add, offset_sub, BitVec.toNat_ofNat]
    omega
  refine ⟨s', hexec, fun hall entry hentry => ?_, fun hrest entry hentry => ?_⟩
  · exact (hsame entry hentry).mp (hall entry (List.mem_of_mem_tail hentry))
  · cases entries with
    | nil => cases hentry
    | cons first entries =>
      rcases List.mem_cons.mp hentry with rfl | htail
      · exact hfirst entry rfl
      · exact (hsame entry htail).mpr (hrest entry htail)

theorem actlrAmcn_clean_iff_twoModules :
    ∃ s', Executes (twoModules false) 0x1100 s' ∧
      ((∀ entry ∈ ([0x100, 0x200] : List Address),
          Clean (twoModules false).core.mem s'.core.mem entry) ↔
        ∀ entry ∈ ([0x200] : List Address),
          Clean (twoModules false).core.mem (twoModules false).core.mem entry) :=
  actlrAmcn_clean_iff bothErrata (twoModules false) [0x100, 0x200] rfl rfl
    (twoModules_holdsCode false) (twoModules_list false) fun _ h _ => twoModules_apart false h

/-- The faulty word of the second module is still there. -/
theorem actlrAmcn_secondModule :
    ¬∀ (flags : ErrataFlags) (s : State) (entries : List Address),
      flags.actlrEl1Unimplemented = true → flags.amcntenset0El0Unimplemented = true →
      HoldsCode s.core.mem s.pc (transferToKernelShellCode flags) →
      LoadOrderList s.core.mem (s.core.x 0) entries →
      (∀ entry ∈ entries, ∀ a, InImage s.core.mem entry a →
        ¬InCode s.pc (transferToKernelShellCode flags) a) →
      ∃ s', Executes s (s.pc + 0x100) s' ∧
        ∀ entry ∈ entries, Clean s.core.mem s'.core.mem entry := by
  intro h
  obtain ⟨hbase, hsize⟩ := (twoModules_images true).2.2
  obtain ⟨s', hexec, hclean⟩ := h bothErrata (twoModules true) [0x100, 0x200] rfl rfl
    (twoModules_holdsCode true) (twoModules_list true) fun _ h _ => twoModules_apart true h
  obtain ⟨s'', hexec', -, hkept⟩ := @actlrAmcn_executes bothErrata (twoModules true) [0x100, 0x200]
    rfl rfl (twoModules_holdsCode true) (twoModules_list true) fun _ h _ => twoModules_apart true h
  obtain rfl := hexec.unique hexec'
  have hword := hclean 0x200 (by decide) 0 (by rw [hsize]; decide)
  rw [hbase, word_zero, Memory.read32_congr fun k hk => hkept 0x200 (by decide) _ ?_] at hword
  · revert hword
    decide +kernel
  · rw [InImage, hbase, hsize, offset_sub, BitVec.toNat_ofNat]
    change k % 2 ^ 64 < 4
    omega

end ProjectMu
