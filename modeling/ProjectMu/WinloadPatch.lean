import ProjectMu.WinloadInside

/-!
# What the patch does to winload

A successful patch redirects one branch to the shell code, which is put in front of the function
that was called. An unsuccessful one changes nothing.
-/

namespace ProjectMu

open AccessLog Arm64

variable {mem patched : Arm64.Memory} {n k : ℕ} {base current : Address} {length : BitVec 64}
  {shellCode : List (BitVec 8)} {s : WinSemester} {semesters : List WinSemester}

/-- A branch back by at most 128 MiB. -/
theorem blTarget_back {target : Address} {distance : ℕ} (haligned : 4 ∣ distance)
    (hdistance : distance ≤ 2 ^ 27) (htarget : target = current - BitVec.ofNat 64 distance) :
    blTarget current (arm64BranchLocationInstruction current target) = some target := by
  have hback : target - current = -BitVec.ofNat 64 distance := by
    rw [htarget]
    grind
  have hint : (target - current).toInt = -distance := by
    rw [hback, ← BitVec.ofInt_natCast, ← BitVec.ofInt_neg, BitVec.toInt_ofInt]
    exact Int.bmod_eq_of_le_mul_two (by omega) (by omega)
  have hnat : 4 ∣ (target - current).toNat := by
    rw [hback, BitVec.toNat_neg, BitVec.toNat_ofNat]
    omega
  rw [arm64BranchLocationInstruction_eq, blTarget_encodeBl current hnat (by omega) (by omega)]
  congr 1
  grind

/-- The branch at `current` that led to the function of a row leads to the shell code in front
of this function, and nothing else is changed. -/
structure TransferRedirected (mem patched : Arm64.Memory) (base : Address)
    (shellCode : List (BitVec 8)) (s : WinSemester) (current : Address) : Prop where
  start_le : transferToKernelAddr base s ≤ current
  branch : blTarget current (mem.read32 current) = some (transferToKernelAddr base s)
  followed : mem.read32 (current + 4) = s.targetInstruction
  redirected : blTarget current (patched.read32 current) =
    some (transferToKernelAddr base s - BitVec.ofNat 64 shellCode.length)
  copied : ∀ i (h : i < shellCode.length),
    patched (transferToKernelAddr base s - BitVec.ofNat 64 shellCode.length + BitVec.ofNat 64 i) =
      shellCode[i]
  apart : ∀ i < 4, shellCode.length ≤ (current + BitVec.ofNat 64 i -
    (transferToKernelAddr base s - BitVec.ofNat 64 shellCode.length)).toNat
  frame : ∀ x, 4 ≤ (x - current).toNat → shellCode.length ≤
    (x - (transferToKernelAddr base s - BitVec.ofNat 64 shellCode.length)).toNat →
    patched x = mem x

theorem transferRedirected_injectShellCode (hsearched : Searched base length s)
    (hsize : 4 ∣ shellCode.length) (htotal : length.toNat + shellCode.length < 2 ^ 27)
    (hk : 4 * k < length.toNat)
    (hbranch : IsBranchAt mem base s (word (transferToKernelAddr base s) k)) :
    TransferRedirected mem
      (injectShellCode mem base shellCode s (word (transferToKernelAddr base s) k)).value base
      shellCode s (word (transferToKernelAddr base s) k) := by
  have hlimit := hsearched.toNat_lt
  set start := transferToKernelAddr base s with hstart
  set current := word start k with hcurrent
  set destination := start - BitVec.ofNat 64 shellCode.length with hdestination
  have hfromstart : start = current - BitVec.ofNat 64 (4 * k) := by
    rw [hcurrent, word]
    grind
  have hoffset (i : ℕ) : current + BitVec.ofNat 64 i - destination =
      BitVec.ofNat 64 (4 * k + shellCode.length + i) := by
    rw [hcurrent, hdestination, word, BitVec.ofNat_add, BitVec.ofNat_add]
    grind
  have hdistance : destination = current - BitVec.ofNat 64 (4 * k + shellCode.length) := by
    rw [hcurrent, hdestination, word, BitVec.ofNat_add]
    grind
  have hpatched : (injectShellCode mem base shellCode s current).value =
      (copyMem mem destination shellCode).write current 4
        ((arm64BranchLocationInstruction current destination).setWidth 64) := rfl
  rw [hpatched]
  constructor
  · rw [BitVec.le_def, hcurrent, word_toNat (by omega)]
    exact Nat.le_add_right _ _
  · rw [hbranch.1]
    exact blTarget_back (Dvd.intro k rfl) (by omega) hfromstart
  · exact hbranch.2
  · rw [Memory.read32_write_self, BitVec.setWidth_setWidth_of_le _ (by decide),
      BitVec.setWidth_eq]
    exact blTarget_back (by omega) (by omega) hdistance
  · intro i hi
    have hfar : destination + BitVec.ofNat 64 i - current =
        -BitVec.ofNat 64 (4 * k + shellCode.length - i) := by
      rw [hdistance, ← Nat.sub_add_cancel (show i ≤ 4 * k + shellCode.length by omega),
        BitVec.ofNat_add, Nat.add_sub_cancel]
      grind
    rw [Memory.write_of_le, copyMem, offset_sub, BitVec.toNat_ofNat, Nat.mod_eq_of_lt (by omega),
      List.getD, List.getElem?_eq_getElem hi, Option.getD_some]
    rw [hfar, BitVec.toNat_neg, BitVec.toNat_ofNat]
    omega
  · intro i hi
    rw [hoffset, BitVec.toNat_ofNat, Nat.mod_eq_of_lt (by omega)]
    omega
  · intro x hx hcopy
    rw [Memory.write_of_le hx, copyMem, List.getD, List.getElem?_eq_none hcopy,
      Option.getD_none]

/-- A place of the search is its end, holds the branch, or is passed. -/
theorem search_step (mem : Arm64.Memory) (shellCode : List (BitVec 8))
    (hlength : 4 ∣ length.toNat) (hsearched : Searched base length s) (hk : 4 * k ≤ length.toNat) :
    let current := word (transferToKernelAddr base s) k
    let step := (searchBranch mem base length shellCode s current).value
    step = .done none ∨
      (4 * k < length.toNat ∧ IsBranchAt mem base s current ∧
        step = .done (some (injectShellCode mem base shellCode s current).value)) ∨
      (4 * (k + 1) ≤ length.toNat ∧
        step = .more (word (transferToKernelAddr base s) (k + 1))) := by
  intro current step
  by_cases hend : 4 * k = length.toNat
  · have hlimit := hsearched.toNat_lt
    have hge : ¬current < transferToKernelAddr base s + length := by
      rw [BitVec.lt_def, word_toNat (by omega), BitVec.toNat_add, Nat.mod_eq_of_lt hlimit]
      omega
    exact .inl (congrArg Logged.value (searchBranch_of_le hge))
  · have hlt := hsearched.word_lt (k := k) (by omega)
    right
    by_cases hbranch : IsBranchAt mem base s current
    · exact .inl ⟨by omega, hbranch, congrArg Logged.value (searchBranch_of_branch hlt hbranch)⟩
    · refine .inr ⟨by omega, ?_⟩
      rw [← word_succ]
      exact (searchBranch_of_not_branch shellCode hlt hbranch).1

theorem search_found (hlength : 4 ∣ length.toNat) (hsearched : Searched base length s)
    (h : (searchSemester mem n base length shellCode s).value = some (some patched)) :
    ∃ k, 4 * k < length.toNat ∧ IsBranchAt mem base s (word (transferToKernelAddr base s) k) ∧
      patched = (injectShellCode mem base shellCode s
        (word (transferToKernelAddr base s) k)).value := by
  refine value_loop (I := fun current => ∃ k, 4 * k ≤ length.toNat ∧
      current = word (transferToKernelAddr base s) k)
    (Q := fun found => ∀ patched, found = some patched → ∃ k, 4 * k < length.toNat ∧
      IsBranchAt mem base s (word (transferToKernelAddr base s) k) ∧ patched =
        (injectShellCode mem base shellCode s (word (transferToKernelAddr base s) k)).value)
    ?_ ⟨0, Nat.zero_le _, word_zero.symm⟩ h patched rfl
  rintro - - ⟨k, hk, rfl⟩
  obtain hdone | ⟨hlt, hbranch, hdone⟩ | ⟨hnext, hmore⟩ :=
    search_step mem shellCode hlength hsearched hk
  · rw [hdone]
    constructor
    · rintro _ ⟨⟩ _ ⟨⟩
    · rintro _ ⟨⟩
  · rw [hdone]
    constructor
    · rintro _ ⟨⟩ _ ⟨⟩
      exact ⟨k, hlt, hbranch, rfl⟩
    · rintro _ ⟨⟩
  · rw [hmore]
    constructor
    · rintro _ ⟨⟩
    · rintro _ ⟨⟩
      exact ⟨k + 1, hnext, rfl⟩

/-- With rounds enough for the area of a row, its search ends. -/
theorem search_ends (mem : Arm64.Memory) (shellCode : List (BitVec 8)) (s : WinSemester)
    (hlength : 4 ∣ length.toNat) (hn : length.toNat < n) :
    ∃ found, (searchSemester mem n base length shellCode s).value = some found := by
  by_cases hsearched : Searched base length s
  · refine exists_loop (I := fun current => ∃ k, 4 * k ≤ length.toNat ∧
        current = word (transferToKernelAddr base s) k)
      (μ := fun current => length.toNat - (current - transferToKernelAddr base s).toNat)
      ?_ ⟨0, Nat.zero_le _, word_zero.symm⟩ ((Nat.sub_le _ _).trans_lt hn)
    rintro - - ⟨k, hk, rfl⟩
    obtain hdone | ⟨-, -, hdone⟩ | ⟨hnext, hmore⟩ :=
      search_step mem shellCode hlength hsearched hk
    · exact .inl ⟨_, hdone⟩
    · exact .inl ⟨_, hdone⟩
    · refine .inr ⟨_, hmore, ⟨k + 1, hnext, rfl⟩, ?_⟩
      have hlimit := hsearched.toNat_lt
      rw [word, word, offset_sub, offset_sub, BitVec.toNat_ofNat, BitVec.toNat_ofNat,
        Nat.mod_eq_of_lt (by omega), Nat.mod_eq_of_lt (by omega)]
      omega
  · cases n with
    | zero => exact absurd hn (Nat.not_lt_zero _)
    | succ n => exact ⟨none, congrArg Logged.value (searchSemester_of_not_searched hsearched)⟩

theorem patchSemesters_ends (hlength : 4 ∣ length.toNat) (hn : length.toNat < n) :
    ∃ result, (patchSemesters mem n base length shellCode semesters).value = some result := by
  induction semesters with
  | nil => exact ⟨_, rfl⟩
  | cons s semesters ih =>
    obtain ⟨found, hfound⟩ := search_ends mem shellCode s hlength hn
    rw [patchSemesters, value_bind, hfound]
    cases found with
    | none => exact ih
    | some patched => exact ⟨_, rfl⟩

/-- What a search of the rows comes to. -/
theorem patchSemesters_value {status : WinloadStatus} (hlength : 4 ∣ length.toNat)
    (h : (patchSemesters mem n base length shellCode semesters).value = some (status, patched)) :
    (status = .notFound ∧ patched = mem) ∨ (status = .success ∧
      ∃ s ∈ semesters, Searched base length s ∧ ∃ k, 4 * k < length.toNat ∧
        IsBranchAt mem base s (word (transferToKernelAddr base s) k) ∧
        patched = (injectShellCode mem base shellCode s
          (word (transferToKernelAddr base s) k)).value) := by
  induction semesters with
  | nil =>
    cases h
    exact .inl ⟨rfl, rfl⟩
  | cons s semesters ih =>
    rw [patchSemesters, value_bind] at h
    cases hfound : (searchSemester mem n base length shellCode s).value with
    | none =>
      rw [hfound] at h
      cases h
    | some found =>
      rw [hfound] at h
      cases found with
      | none =>
        refine (ih h).imp_right ?_
        rintro ⟨hstatus, s', hs', hrest⟩
        exact ⟨hstatus, s', List.mem_cons_of_mem _ hs', hrest⟩
      | some found =>
        cases h
        have hsearched : Searched base length s := by
          by_contra hnot
          cases n with
          | zero => cases hfound
          | succ n =>
            rw [searchSemester_of_not_searched hnot] at hfound
            cases hfound
        exact .inr ⟨rfl, s, List.mem_cons_self, hsearched, search_found hlength hsearched hfound⟩

/-- The patch ends. Where it succeeds, a branch is redirected, and otherwise nothing is
changed. -/
theorem patchOsLoaderArm64TransferToKernel_effect (mem : Arm64.Memory) (base : Address)
    (length : BitVec 64) (shellCode : Option (List (BitVec 8))) (hlength : 4 ∣ length.toNat)
    (hsize : 4 ∣ (shellCode.getD []).length)
    (htotal : length.toNat + (shellCode.getD []).length < 2 ^ 27) :
    (∀ n, length.toNat < n → ∃ result,
      (patchOsLoaderArm64TransferToKernel mem n base length shellCode).value = some result) ∧
    ∀ n status patched, (patchOsLoaderArm64TransferToKernel mem n base length shellCode).value =
        some (status, patched) →
      (status = .success → ∃ s ∈ winSemesterData, ∃ current,
        TransferRedirected mem patched base (shellCode.getD []) s current) ∧
      (status ≠ .success → patched = mem) := by
  by_cases hrejected : Rejected base shellCode
  · simp only [patch_of_rejected hrejected]
    refine ⟨fun n _ => ⟨_, rfl⟩, ?_⟩
    rintro n status patched ⟨⟩
    exact ⟨nofun, fun _ => rfl⟩
  · simp only [patch_of_not_rejected hrejected]
    refine ⟨fun n hn => patchSemesters_ends hlength hn, fun n status patched hvalue => ?_⟩
    obtain ⟨rfl, rfl⟩ | ⟨rfl, s, hs, hsearched, k, hk, hbranch, rfl⟩ :=
      patchSemesters_value hlength hvalue
    · exact ⟨nofun, fun _ => rfl⟩
    · have hredirected := transferRedirected_injectShellCode hsearched hsize htotal hk hbranch
      exact ⟨fun _ => ⟨s, hs, _, hredirected⟩, fun h => absurd rfl h⟩

/-- An image at 0x10000 with the branch of the first row at 0x11010. -/
def legacyWinload : Arm64.Memory := .ofWords 0x11010 [0x97FFFFFC, 0xD2800002]

theorem legacyWinload_redirected : ∃ patched, ∃ s ∈ winSemesterData, ∃ current,
    TransferRedirected legacyWinload patched 0x10000 [0x1F, 0x20, 0x03, 0xD5] s current := by
  have hvalue : ((patchOsLoaderArm64TransferToKernel legacyWinload 8 0x10000 0x2000
      (some [0x1F, 0x20, 0x03, 0xD5])).value.map Prod.fst) = some .success := by
    decide +kernel
  obtain ⟨⟨status, patched⟩, hresult, rfl⟩ := Option.map_eq_some_iff.mp hvalue
  exact ⟨patched, ((patchOsLoaderArm64TransferToKernel_effect legacyWinload 0x10000 0x2000
    (some [0x1F, 0x20, 0x03, 0xD5]) ⟨0x800, rfl⟩ ⟨1, rfl⟩ (by decide)).2 8 _ patched hresult).1 rfl⟩

end ProjectMu
