import ProjectMu.Winload

/-!
# When the patch stays inside the image

The search of a row ends a whole image length after the function of the row, so without a branch
in the image it runs past the end of the image. Only the first row can end well.
-/

namespace ProjectMu

open AccessLog Arm64

variable {mem : Arm64.Memory} {n j k : ℕ} {base : Address} {length : BitVec 64}
  {shellCode : List (BitVec 8)} {s : WinSemester} {semesters : List WinSemester}

def InWinload (base : Address) (length : BitVec 64) (a : WinloadAccess) : Prop :=
  base.toNat ≤ a.location.toNat ∧ a.location.toNat + a.size ≤ base.toNat + length.toNat

def PatchesInside (mem : Arm64.Memory) (base : Address) (length : BitVec 64)
    (shellCode : Option (List (BitVec 8))) : Prop :=
  ∀ n, ∀ a ∈ (patchOsLoaderArm64TransferToKernel mem n base length shellCode).log,
    InWinload base length a

/-- The area of a row that is searched has a word. -/
def Searched (base : Address) (length : BitVec 64) (s : WinSemester) : Prop :=
  transferToKernelAddr base s < transferToKernelAddr base s + length

theorem Searched.toNat_lt (h : Searched base length s) :
    (transferToKernelAddr base s).toNat + length.toNat < 2 ^ 64 := by
  rw [Searched] at h
  bv_omega

theorem Searched.word_lt (h : Searched base length s) (hk : 4 * k < length.toNat) :
    word (transferToKernelAddr base s) k < transferToKernelAddr base s + length := by
  have hlt := h.toNat_lt
  rw [BitVec.lt_def, word_toNat (by omega), BitVec.toNat_add, Nat.mod_eq_of_lt hlt]
  omega

theorem transferToKernelAddr_toNat (h : base.toNat ≤ (transferToKernelAddr base s).toNat) :
    (transferToKernelAddr base s).toNat =
      base.toNat + 0xC00 + s.transferToKernelOffset.toNat := by
  have hoffset := s.transferToKernelOffset.isLt
  rw [transferToKernelAddr] at h ⊢
  bv_omega

/-- Places without the branch are passed. -/
theorem search_skip (h : Searched base length s)
    (hskip : ∀ i < j, 4 * i < length.toNat ∧
      ¬IsBranchAt mem base s (word (transferToKernelAddr base s) i)) :
    (loop (fun _ => searchBranch mem base length shellCode s) n
        (word (transferToKernelAddr base s) j)).log ⊆
      (searchSemester mem (n + j) base length shellCode s).log := by
  have hmore : ∀ i < j, ∀ _ : ℕ, (searchBranch mem base length shellCode s
      (word (transferToKernelAddr base s) i)).value =
        .more (word (transferToKernelAddr base s) (i + 1)) := by
    intro i hi _
    obtain ⟨hlt, hbranch⟩ := hskip i hi
    rw [(searchBranch_of_not_branch shellCode (h.word_lt hlt) hbranch).1, word_succ]
  have hlog := (loop_skip (n := n) (t := word (transferToKernelAddr base s)) hmore).2
  rwa [word_zero] at hlog

/-- Places are read up to the first branch. -/
theorem step_subset_search (mem : Arm64.Memory) (shellCode : List (BitVec 8))
    (h : Searched base length s)
    (hj : 4 * j < length.toNat)
    (hskip : ∀ i < j, ¬IsBranchAt mem base s (word (transferToKernelAddr base s) i)) :
    (searchBranch mem base length shellCode s (word (transferToKernelAddr base s) j)).log ⊆
      (searchSemester mem (1 + j) base length shellCode s).log := by
  have hfirst := @log_step_subset _ _ _ (fun _ => searchBranch mem base length shellCode s) 0
    (word (transferToKernelAddr base s) j)
  exact List.Subset.trans hfirst (search_skip h fun i hi => ⟨by omega, hskip i hi⟩)

/-- A place that is looked at is read. -/
theorem read_mem_searchBranch {current : Address}
    (h : current < transferToKernelAddr base s + length) :
    ⟨current, 4⟩ ∈ (searchBranch mem base length shellCode s current).log := by
  by_cases hbranch : IsBranchAt mem base s current
  · rw [searchBranch_of_branch h hbranch]
    exact List.mem_cons_self
  · exact (searchBranch_of_not_branch shellCode h hbranch).2.1

/-- The branch of a row is found inside of the image, with place for the shell code. -/
structure BranchInside (mem : Arm64.Memory) (base : Address) (length : BitVec 64)
    (shellCode : List (BitVec 8)) (s : WinSemester) (k : ℕ) : Prop where
  branch : IsBranchAt mem base s (word (transferToKernelAddr base s) k)
  inside : (transferToKernelAddr base s).toNat + 4 * k + 8 ≤ base.toNat + length.toNat
  place : base.toNat + shellCode.length ≤ (transferToKernelAddr base s).toNat

theorem exists_branchInside (h : Searched base length s)
    (hrange : base.toNat + length.toNat ≤ 2 ^ 64)
    (hinside : ∀ n, ∀ a ∈ (searchSemester mem n base length shellCode s).log,
      InWinload base length a) : ∃ k, BranchInside mem base length shellCode s k := by
  have hlt := h.toNat_lt
  have hpos : 4 * 0 < length.toNat := by
    rw [Searched] at h
    bv_omega
  have hstart : base.toNat ≤ (transferToKernelAddr base s).toNat := by
    have hread := step_subset_search mem shellCode h hpos
      (fun _ hi => absurd hi (Nat.not_lt_zero _)) (read_mem_searchBranch (h.word_lt hpos))
    rw [word_zero] at hread
    exact (hinside _ _ hread).1
  have haddr := transferToKernelAddr_toNat hstart
  by_cases hfound : ∃ k, 4 * k < length.toNat ∧
      IsBranchAt mem base s (word (transferToKernelAddr base s) k)
  · obtain ⟨hk, hbranch⟩ := Nat.find_spec hfound
    have hskip : ∀ i < Nat.find hfound,
        ¬IsBranchAt mem base s (word (transferToKernelAddr base s) i) :=
      fun i hi hbranch => Nat.find_min hfound hi ⟨by omega, hbranch⟩
    have hlog := step_subset_search mem shellCode h hk hskip
    rw [searchBranch_of_branch (h.word_lt hk) hbranch] at hlog
    have hread := hinside _ _ (hlog List.mem_cons_self)
    have hnext := hinside _ _ (hlog (List.mem_cons_of_mem _ List.mem_cons_self))
    have hcopy := hinside _ _ (hlog (List.mem_cons_of_mem _ (List.mem_cons_of_mem _
      List.mem_cons_self)))
    have hword := word_toNat
      (show (transferToKernelAddr base s).toNat + 4 * Nat.find hfound < 2 ^ 64 by omega)
    rw [InWinload, hword] at hread
    refine ⟨Nat.find hfound, hbranch, ?_, ?_⟩
    · have hfour : (4 : Address).toNat = 4 := rfl
      rw [InWinload, BitVec.toNat_add, hword, hfour] at hnext
      dsimp only at hread hnext
      omega
    · rw [InWinload, newTransferToKernelAddr, BitVec.toNat_sub, BitVec.toNat_ofNat] at hcopy
      dsimp only at hcopy
      omega
  · -- the last place ends behind the image
    have hlast : 4 * ((length.toNat - 1) / 4) < length.toNat := by omega
    have hread := step_subset_search mem shellCode h hlast
      (fun i hi hbranch => hfound ⟨i, by omega, hbranch⟩) (read_mem_searchBranch (h.word_lt hlast))
    have hend := (hinside _ _ hread).2
    rw [word_toNat (by omega)] at hend
    omega

theorem searchSemester_of_not_searched (h : ¬Searched base length s) :
    searchSemester mem (n + 1) base length shellCode s = ⟨some none, []⟩ := by
  have hdone := @searchBranch_of_le mem base _ length shellCode s h
  rw [searchSemester, loop_done (by rw [hdone]; rfl), hdone]
  rfl

/-- The first row that is searched makes its accesses. -/
theorem exists_searched (mem : Arm64.Memory) (shellCode : List (BitVec 8)) (hs : s ∈ semesters)
    (h : Searched base length s) : ∃ s' ∈ semesters, Searched base length s' ∧ ∀ n,
      (searchSemester mem (n + 1) base length shellCode s').log ⊆
        (patchSemesters mem (n + 1) base length shellCode semesters).log := by
  induction semesters with
  | nil => exact absurd hs List.not_mem_nil
  | cons head rest ih =>
    by_cases hhead : Searched base length head
    · refine ⟨head, List.mem_cons_self, hhead, fun n => ?_⟩
      rw [patchSemesters, log_bind]
      exact List.subset_append_left _ _
    · have hrest : s ∈ rest := by
        rcases List.mem_cons.mp hs with rfl | hrest
        · exact absurd h hhead
        · exact hrest
      obtain ⟨s', hs', hsearched, hlog⟩ := ih hrest
      refine ⟨s', List.mem_cons_of_mem _ hs', hsearched, fun n => ?_⟩
      rw [patchSemesters, searchSemester_of_not_searched hhead]
      exact hlog n

theorem log_patchSemesters_of_not_searched (h : ∀ s ∈ semesters, ¬Searched base length s) :
    (patchSemesters mem n base length shellCode semesters).log = [] := by
  cases n with
  | zero =>
    cases semesters with
    | nil => rfl
    | cons => rfl
  | succ n =>
    induction semesters with
    | nil => rfl
    | cons head rest ih =>
      obtain ⟨hhead, hrest⟩ := List.forall_mem_cons.mp h
      rw [patchSemesters, searchSemester_of_not_searched hhead]
      exact ih hrest

section
variable (h : BranchInside mem base length shellCode s k) (hsearched : Searched base length s)
include h hsearched

/-- Up to its branch, the search goes from place to place. -/
theorem BranchInside.step (hj : j ≤ k) :
    (∀ a ∈ (searchBranch mem base length shellCode s
        (word (transferToKernelAddr base s) j)).log, InWinload base length a) ∧
      ((∃ patched, (searchBranch mem base length shellCode s
          (word (transferToKernelAddr base s) j)).value = .done (some patched)) ∨
        j < k ∧ (searchBranch mem base length shellCode s
          (word (transferToKernelAddr base s) j)).value =
            .more (word (transferToKernelAddr base s) (j + 1))) := by
  obtain ⟨hbranch, hinside, hplace⟩ := h
  have hlimit := hsearched.toNat_lt
  have hword := word_toNat
    (show (transferToKernelAddr base s).toNat + 4 * j < 2 ^ 64 by omega)
  have hnextword := word_toNat
    (show (transferToKernelAddr base s).toNat + 4 * (j + 1) < 2 ^ 64 by omega)
  have hlt : word (transferToKernelAddr base s) j < transferToKernelAddr base s + length := by
    apply hsearched.word_lt
    omega
  have hfirst : InWinload base length ⟨word (transferToKernelAddr base s) j, 4⟩ := by
    rw [InWinload, hword]
    dsimp only
    omega
  have hsecond : InWinload base length ⟨word (transferToKernelAddr base s) j + 4, 4⟩ := by
    rw [InWinload, word_succ, hnextword]
    dsimp only
    omega
  by_cases hfound : IsBranchAt mem base s (word (transferToKernelAddr base s) j)
  · rw [searchBranch_of_branch hlt hfound]
    have hcopy : InWinload base length ⟨newTransferToKernelAddr base s shellCode,
        shellCode.length⟩ := by
      rw [InWinload, newTransferToKernelAddr, BitVec.toNat_sub, BitVec.toNat_ofNat]
      dsimp only
      omega
    refine ⟨?_, .inl ⟨_, rfl⟩⟩
    simp only [injectShellCode, access_bind, log_access, List.forall_mem_cons]
    exact ⟨hfirst, hsecond, hcopy, hfirst, fun a ha => absurd ha List.not_mem_nil⟩
  · obtain ⟨hvalue, -, hlog⟩ := searchBranch_of_not_branch shellCode hlt hfound
    refine ⟨fun a ha => ?_, .inr ⟨?_, ?_⟩⟩
    · have hread := hlog ha
      rw [List.mem_cons, List.mem_singleton] at hread
      rcases hread with rfl | rfl
      · exact hfirst
      · exact hsecond
    · refine hj.lt_of_ne ?_
      rintro rfl
      exact hfound hbranch
    · rw [hvalue, word_succ]

theorem BranchInside.inWinload :
    ∀ a ∈ (searchSemester mem n base length shellCode s).log, InWinload base length a := by
  refine forall_log_loop (I := fun current => ∃ j ≤ k,
    current = word (transferToKernelAddr base s) j) ?_ ⟨0, Nat.zero_le k, word_zero.symm⟩
  rintro - - ⟨j, hj, rfl⟩
  obtain ⟨hlog, ⟨patched, hdone⟩ | ⟨hlt, hmore⟩⟩ := h.step hsearched hj
  · refine ⟨hlog, fun current hnext => ?_⟩
    rw [hdone] at hnext
    cases hnext
  · refine ⟨hlog, fun current hnext => ⟨j + 1, hlt, ?_⟩⟩
    rw [hmore] at hnext
    exact (Next.more.inj hnext).symm

theorem BranchInside.found :
    (searchSemester mem n base length shellCode s).value ≠ some none := by
  intro hnone
  refine value_loop (Q := fun found => found ≠ none) (I := fun current => ∃ j ≤ k,
    current = word (transferToKernelAddr base s) j) ?_ ⟨0, Nat.zero_le k, word_zero.symm⟩ hnone rfl
  rintro - - ⟨j, hj, rfl⟩
  obtain ⟨-, ⟨patched, hdone⟩ | ⟨hlt, hmore⟩⟩ := h.step hsearched hj
  · rw [hdone]
    constructor
    · rintro _ ⟨⟩
      exact Option.some_ne_none patched
    · intro _ hnext
      cases hnext
  · rw [hmore]
    constructor
    · intro _ hdone
      cases hdone
    · rintro _ ⟨⟩
      exact ⟨j + 1, hlt, rfl⟩

end

/-- Nothing is searched for these parameters. -/
def Rejected (base : Address) (shellCode : Option (List (BitVec 8))) : Prop :=
  base = 0 ∨ shellCode.getD [] = []

theorem patch_of_rejected {shellCode : Option (List (BitVec 8))} (h : Rejected base shellCode) :
    patchOsLoaderArm64TransferToKernel mem n base length shellCode =
      pure (some (.invalidParameter, mem)) := by
  cases shellCode with
  | none => rfl
  | some shellCode => exact if_pos (h.imp_right List.length_eq_zero_iff.mpr)

theorem patch_of_not_rejected {shellCode : Option (List (BitVec 8))}
    (h : ¬Rejected base shellCode) :
    patchOsLoaderArm64TransferToKernel mem n base length shellCode =
      patchSemesters mem n base length (shellCode.getD []) winSemesterData := by
  cases shellCode with
  | none => exact absurd (.inr rfl) h
  | some shellCode => exact if_neg (h ∘ Or.imp_right List.length_eq_zero_iff.mp)

theorem log_searchSemester_legacy :
    (searchSemester mem n base length shellCode legacy).log ⊆
      (patchSemesters mem n base length shellCode winSemesterData).log := by
  rw [winSemesterData, patchSemesters, log_bind]
  exact List.subset_append_left _ _

/-- The function of the first row starts before the others. -/
theorem Searched.legacy (hs : s ∈ winSemesterData) (h : Searched base length s)
    (hstart : base.toNat ≤ (transferToKernelAddr base s).toNat) :
    Searched base length legacy := by
  have hoffset : ∀ s ∈ winSemesterData, 0x400 ≤ s.transferToKernelOffset.toNat := by decide
  replace hoffset := hoffset s hs
  have haddr := transferToKernelAddr_toNat hstart
  have hlimit := h.toNat_lt
  have hlegacy : transferToKernelAddr base ProjectMu.legacy = base + 0x1000 := by
    rw [transferToKernelAddr, BitVec.add_assoc]
    rfl
  rw [Searched] at h ⊢
  rw [hlegacy]
  bv_omega

/-- Apart from calls that search nothing, the accesses stay inside of the image exactly where
the first row is searched and finds its branch. -/
theorem patchesInside_iff (mem : Arm64.Memory) (base : Address) (length : BitVec 64)
    (shellCode : Option (List (BitVec 8))) (hrange : base.toNat + length.toNat ≤ 2 ^ 64) :
    PatchesInside mem base length shellCode ↔
      Rejected base shellCode ∨ (∀ s ∈ winSemesterData, ¬Searched base length s) ∨
      (Searched base length legacy ∧
        ∃ k, BranchInside mem base length (shellCode.getD []) legacy k) := by
  by_cases hrejected : Rejected base shellCode
  · refine iff_of_true ?_ (.inl hrejected)
    intro n a ha
    rw [patch_of_rejected hrejected] at ha
    exact absurd ha List.not_mem_nil
  · rw [or_iff_right hrejected, PatchesInside]
    simp only [patch_of_not_rejected hrejected]
    constructor
    · intro h
      have hinside {s} (hlog : ∀ n, (searchSemester mem (n + 1) base length (shellCode.getD [])
          s).log ⊆ (patchSemesters mem (n + 1) base length (shellCode.getD [])
            winSemesterData).log) (n) : ∀ a ∈ (searchSemester mem n base length
              (shellCode.getD []) s).log, InWinload base length a := by
        cases n with
        | zero => exact fun a ha => absurd ha List.not_mem_nil
        | succ n => exact fun a ha => h (n + 1) a (hlog n ha)
      rw [or_iff_not_imp_left]
      intro hsome
      push Not at hsome
      obtain ⟨s, hs, hsearched⟩ := hsome
      obtain ⟨s', hs', hfirst, hlog⟩ := exists_searched mem (shellCode.getD []) hs hsearched
      obtain ⟨k, hk⟩ := exists_branchInside hfirst hrange (hinside hlog)
      have hlegacy := hfirst.legacy hs' (by have := hk.place; omega)
      exact ⟨hlegacy, exists_branchInside hlegacy hrange
        (hinside fun _ => log_searchSemester_legacy)⟩
    · rintro (hnone | ⟨hsearched, k, hk⟩) n a ha
      · rw [log_patchSemesters_of_not_searched hnone] at ha
        exact absurd ha List.not_mem_nil
      · rw [winSemesterData, patchSemesters, log_bind, List.mem_append] at ha
        rcases ha with ha | ha
        · exact hk.inWinload hsearched a ha
        · have hfound := hk.found hsearched (n := n)
          cases hvalue : (searchSemester mem n base length (shellCode.getD []) legacy).value with
          | none =>
            rw [hvalue] at ha
            exact absurd ha List.not_mem_nil
          | some found =>
            cases found with
            | none => exact absurd hvalue hfound
            | some patched =>
              rw [hvalue] at ha
              exact absurd ha List.not_mem_nil

/-- An image without a branch. -/
theorem patchesInside_zeros_iff :
    PatchesInside (fun _ => 0) 0x10000 0x100000 (some [0]) ↔
      Rejected 0x10000 (some [0]) ∨ (∀ s ∈ winSemesterData, ¬Searched 0x10000 0x100000 s) ∨
      (Searched 0x10000 0x100000 legacy ∧
        ∃ k, BranchInside (fun _ => 0) 0x10000 0x100000 [0] legacy k) :=
  patchesInside_iff (fun _ => 0) 0x10000 0x100000 (some [0]) (by decide)

theorem zeros_not_patchesInside :
    ¬∀ (mem : Arm64.Memory) (base : Address) (length : BitVec 64)
      (shellCode : Option (List (BitVec 8))), base.toNat + length.toNat ≤ 2 ^ 64 →
      PatchesInside mem base length shellCode := by
  intro h
  have hsearched : Searched 0x10000 0x100000 legacy := by
    rw [Searched]
    decide
  have hrejected : ¬Rejected 0x10000 (some [0]) := by
    rw [Rejected]
    decide
  have hinside (n) : ∀ a ∈ (searchSemester (fun _ => 0) n 0x10000 0x100000 [0] legacy).log,
      InWinload 0x10000 0x100000 a := by
    intro a ha
    refine h (fun _ => 0) 0x10000 0x100000 (some [0]) (by decide) n a ?_
    rw [patch_of_not_rejected hrejected]
    exact log_searchSemester_legacy ha
  obtain ⟨k, hk⟩ := exists_branchInside hsearched (by decide) hinside
  have hbranch : arm64BranchLocationInstruction (word (transferToKernelAddr 0x10000 legacy) k)
      (transferToKernelAddr 0x10000 legacy) = 0#32 := by
    rw [← hk.branch.1, Memory.read32]
    rfl
  rw [arm64BranchLocationInstruction] at hbranch
  have hopcode : (0x94000000 : BitVec 32) = 0#32 := (BitVec.or_eq_zero_iff.mp hbranch).1
  exact absurd hopcode (by decide)

end ProjectMu
