import ProjectMu.Winload

/-!
# The secure boot patch of the UFP loader

`removeSecureBootCheck` looks for a function by its prologue, its epilogue and the padding in
front of it, and overwrites the first one that it finds. The search tests every word of the range
with a read of two, so without a function in the range it reads behind the end.
-/

namespace ProjectMu

open AccessLog Arm64

/-- Bytes from a location on that are read or written. -/
structure UfpAccess where
  location : Address
  size : ℕ
  deriving DecidableEq

/-- A round of the search; its result is the memory that it leaves. -/
def testFunctionStart (mem : Arm64.Memory) (endAddr current : Address) :
    Logged UfpAccess (Next Address Arm64.Memory) :=
  if current < endAddr then do
    let functionStart ← access ⟨current, 8⟩ (mem.read64 current)
    if functionStart ≠ 0xA9015BF5A9BE53F3 then pure (.more (current + 4))
    else
      let functionEnd ← access ⟨current + arm64TotalInstructionLength 66, 8⟩
        (mem.read64 (current + arm64TotalInstructionLength 66))
      if functionEnd ≠ 0xD65F03C0A8C253F3 then pure (.more (current + 4))
      else
        let padding ← access ⟨current - arm64TotalInstructionLength 1, 4⟩
          (mem.read32 (current - arm64TotalInstructionLength 1))
        if padding ≠ 0 then pure (.more (current + 4))
        else
          let mem ← access ⟨current, 4⟩ (mem.write current 4 0x2A1F03E0)
          let mem ← access ⟨current + arm64TotalInstructionLength 1, 4⟩
            (mem.write (current + arm64TotalInstructionLength 1) 4 0xD65F03C0)
          pure (.done mem)
  else pure (.done mem)

def removeSecureBootCheck (mem : Arm64.Memory) (n : ℕ) (base endAddr : Address) :
    Logged UfpAccess (Option Arm64.Memory) :=
  loop (fun _ => testFunctionStart mem endAddr) n base

variable {mem patched : Arm64.Memory} {n i j k : ℕ} {base endAddr current start : Address}

def StartsFunction (mem : Arm64.Memory) (start : Address) : Prop :=
  mem.read64 start = 0xA9015BF5A9BE53F3

def EndsFunction (mem : Arm64.Memory) (start : Address) : Prop :=
  mem.read64 (start + arm64TotalInstructionLength 66) = 0xD65F03C0A8C253F3

def IsPadded (mem : Arm64.Memory) (start : Address) : Prop :=
  mem.read32 (start - arm64TotalInstructionLength 1) = 0

/-- The function that checks secure boot starts here. -/
structure IsCheckAt (mem : Arm64.Memory) (start : Address) : Prop where
  starts : StartsFunction mem start
  ends : EndsFunction mem start
  padded : IsPadded mem start

/-- The function and the padding in front of it lie in the range. -/
structure HasSignature (mem : Arm64.Memory) (base endAddr start : Address) : Prop where
  aligned : 4 ∣ start.toNat
  above : base.toNat + 4 ≤ start.toNat
  below : start.toNat + 272 ≤ endAddr.toNat
  check : IsCheckAt mem start

/-- The function returns at once, and nothing else is changed. -/
structure CheckRemoved (mem patched : Arm64.Memory) (start : Address) : Prop where
  first : patched.read32 start = 0x2A1F03E0
  second : patched.read32 (start + 4) = 0xD65F03C0
  frame : ∀ x, 8 ≤ (x - start).toNat → patched x = mem x

def InUfpRange (base endAddr : Address) (a : UfpAccess) : Prop :=
  base.toNat ≤ a.location.toNat ∧ a.location.toNat + a.size ≤ endAddr.toNat

/-- The number of words in a range. -/
def rangeWords (base endAddr : Address) : ℕ := (endAddr.toNat - base.toNat) / 4

structure PatchConfined (mem : Arm64.Memory) (base endAddr : Address) : Prop where
  ends : ∀ n, rangeWords base endAddr < n →
    ∃ patched, (removeSecureBootCheck mem n base endAddr).value = some patched
  inside : ∀ n, ∀ a ∈ (removeSecureBootCheck mem n base endAddr).log, InUfpRange base endAddr a
  unchanged : ∀ n patched, (removeSecureBootCheck mem n base endAddr).value = some patched →
    (∀ start, ¬HasSignature mem base endAddr start) → patched = mem
  removed : ∀ n patched start, (removeSecureBootCheck mem n base endAddr).value = some patched →
    HasSignature mem base endAddr start →
    (∀ lower < start, ¬HasSignature mem base endAddr lower) → CheckRemoved mem patched start

/-- The memory in which the first two instructions of a function are overwritten. -/
def removeCheck (mem : Arm64.Memory) (start : Address) : Arm64.Memory :=
  (mem.write start 4 0x2A1F03E0).write (start + arm64TotalInstructionLength 1) 4 0xD65F03C0

theorem testFunctionStart_of_le (h : ¬current < endAddr) :
    testFunctionStart mem endAddr current = ⟨.done mem, []⟩ :=
  if_neg h

/-- A function is found after three reads and overwritten. -/
theorem testFunctionStart_of_check (h : current < endAddr) (hcheck : IsCheckAt mem current) :
    testFunctionStart mem endAddr current = ⟨.done (removeCheck mem current),
      [⟨current, 8⟩, ⟨current + arm64TotalInstructionLength 66, 8⟩,
        ⟨current - arm64TotalInstructionLength 1, 4⟩, ⟨current, 4⟩,
        ⟨current + arm64TotalInstructionLength 1, 4⟩]⟩ := by
  have hstarts : mem.read64 current = _ := hcheck.starts
  have hends : mem.read64 (current + arm64TotalInstructionLength 66) = _ := hcheck.ends
  have hpadded : mem.read32 (current - arm64TotalInstructionLength 1) = 0 := hcheck.padded
  rw [testFunctionStart, if_pos h, access_bind, if_neg (not_not.mpr hstarts), access_bind,
    if_neg (not_not.mpr hends), access_bind, if_neg (not_not.mpr hpadded)]
  rfl

/-- The reads behind the first one. Each of the three tests is made only after the one before
it. -/
def FurtherRead (mem : Arm64.Memory) (current : Address) (a : UfpAccess) : Prop :=
  StartsFunction mem current ∧ (a = ⟨current + arm64TotalInstructionLength 66, 8⟩ ∨
    EndsFunction mem current ∧ a = ⟨current - arm64TotalInstructionLength 1, 4⟩)

/-- Where there is no check the search goes on. -/
theorem testFunctionStart_of_not_check (h : current < endAddr) (hcheck : ¬IsCheckAt mem current) :
    ∃ log, testFunctionStart mem endAddr current = ⟨.more (current + 4), ⟨current, 8⟩ :: log⟩ ∧
      ∀ a, a ∈ log ↔ FurtherRead mem current a := by
  rw [testFunctionStart, if_pos h, access_bind]
  by_cases hstarts : StartsFunction mem current
  · have hstart : mem.read64 current = _ := hstarts
    rw [if_neg (not_not.mpr hstart), access_bind]
    by_cases hends : EndsFunction mem current
    · have hend : mem.read64 (current + arm64TotalInstructionLength 66) = _ := hends
      have hpadding : mem.read32 (current - arm64TotalInstructionLength 1) ≠ 0 :=
        fun hpadding => hcheck ⟨hstarts, hends, hpadding⟩
      rw [if_neg (not_not.mpr hend), access_bind, if_pos hpadding]
      exact ⟨_, rfl, by simp [FurtherRead, hstarts, hends]⟩
    · have hend : mem.read64 (current + arm64TotalInstructionLength 66) ≠ 0xD65F03C0A8C253F3 :=
        hends
      rw [if_pos hend]
      exact ⟨_, rfl, by simp [FurtherRead, hstarts, hends]⟩
  · have hstart : mem.read64 current ≠ 0xA9015BF5A9BE53F3 := hstarts
    rw [if_pos hstart]
    exact ⟨_, rfl, by simp [FurtherRead, hstarts]⟩

theorem checkRemoved_removeCheck (mem : Arm64.Memory) (start : Address) :
    CheckRemoved mem (removeCheck mem start) start := by
  have hnext : start + arm64TotalInstructionLength 1 = start + 4 := rfl
  rw [removeCheck, hnext]
  refine ⟨?_, Memory.read32_write_self, ?_⟩
  · have hkept : ((mem.write start 4 0x2A1F03E0).write (start + 4) 4 0xD65F03C0).read32 start =
        (mem.write start 4 0x2A1F03E0).read32 start :=
      Memory.read32_congr fun k hk => Memory.write_of_le (by bv_omega)
    exact hkept.trans Memory.read32_write_self
  · intro x hx
    rw [Memory.write_of_le (by bv_omega), Memory.write_of_le (by omega)]

/-- The range has whole words, of which the search has looked at all when it ends. -/
theorem word_lt_iff (hbase : 4 ∣ base.toNat) (hend : 4 ∣ endAddr.toNat) (hle : base ≤ endAddr)
    (hi : i ≤ rangeWords base endAddr) : word base i < endAddr ↔ i < rangeWords base endAddr := by
  have hlt := endAddr.isLt
  have hle : base.toNat ≤ endAddr.toNat := hle
  rw [rangeWords] at hi ⊢
  rw [BitVec.lt_def, word_toNat (by omega)]
  omega

theorem toNat_word (hle : base ≤ endAddr) (hi : i ≤ rangeWords base endAddr) :
    (word base i).toNat = base.toNat + 4 * i := by
  have hlt := endAddr.isLt
  have hle : base.toNat ≤ endAddr.toNat := hle
  rw [rangeWords] at hi
  exact word_toNat (by omega)

theorem exists_word (hbase : 4 ∣ base.toNat) (hstart : 4 ∣ start.toNat)
    (hle : base.toNat ≤ start.toNat) :
    ∃ i, start = word base i ∧ start.toNat = base.toNat + 4 * i := by
  have hlt := start.isLt
  refine ⟨(start.toNat - base.toNat) / 4, ?_, by omega⟩
  rw [← BitVec.toNat_inj, word_toNat (by omega)]
  omega

/-- A place that is looked at is read. -/
theorem mem_log_testFunctionStart {a : UfpAccess} (h : current < endAddr)
    (ha : a = ⟨current, 8⟩ ∨ FurtherRead mem current a) :
    a ∈ (testFunctionStart mem endAddr current).log := by
  by_cases hcheck : IsCheckAt mem current
  · rw [testFunctionStart_of_check h hcheck]
    rcases ha with rfl | ⟨-, rfl | ⟨-, rfl⟩⟩ <;> simp
  · obtain ⟨log, hround, hlog⟩ := testFunctionStart_of_not_check h hcheck
    rw [hround, List.mem_cons, hlog]
    exact ha

section Search

variable (hbase : 4 ∣ base.toNat) (hend : 4 ∣ endAddr.toNat) (hle : base ≤ endAddr)
include hbase hend hle

/-- Places without the check are passed. -/
theorem loop_testFunctionStart_skip (hj : j ≤ rangeWords base endAddr)
    (hskip : ∀ i < j, ¬IsCheckAt mem (word base i)) :
    (removeSecureBootCheck mem (n + j) base endAddr).value =
        (removeSecureBootCheck mem n (word base j) endAddr).value ∧
      (removeSecureBootCheck mem n (word base j) endAddr).log ⊆
        (removeSecureBootCheck mem (n + j) base endAddr).log := by
  have hmore : ∀ i < j, ∀ _ : ℕ, (testFunctionStart mem endAddr (word base i)).value =
      .more (word base (i + 1)) := by
    intro i hi _
    have hlt := (word_lt_iff hbase hend hle (by omega)).mpr (Nat.lt_of_lt_of_le hi hj)
    obtain ⟨log, hround, -⟩ := testFunctionStart_of_not_check hlt (hskip i hi)
    rw [hround, word_succ]
  have hloop := loop_skip (n := n) (t := word base) hmore
  rwa [word_zero] at hloop

/-- The places are read up to the first check. -/
theorem mem_log_removeSecureBootCheck {a : UfpAccess} (hj : j < rangeWords base endAddr)
    (hskip : ∀ i < j, ¬IsCheckAt mem (word base i))
    (ha : a = ⟨word base j, 8⟩ ∨ FurtherRead mem (word base j) a) :
    a ∈ (removeSecureBootCheck mem (1 + j) base endAddr).log := by
  have hlt := (word_lt_iff hbase hend hle hj.le).mpr hj
  have hfirst := @log_step_subset _ _ _ (fun _ => testFunctionStart mem endAddr) 0 (word base j)
  exact (loop_testFunctionStart_skip hbase hend hle hj.le hskip).2
    (hfirst (mem_log_testFunctionStart hlt ha))

variable (hk : k < rangeWords base endAddr) (hcheck : IsCheckAt mem (word base k))
  (hskip : ∀ i < k, ¬IsCheckAt mem (word base i))
include hk hcheck hskip

/-- The first check is removed. -/
theorem value_removeSecureBootCheck (hn : k < n) :
    (removeSecureBootCheck mem n base endAddr).value =
      some (removeCheck mem (word base k)) := by
  obtain ⟨m, rfl⟩ : ∃ m, n = m + 1 + k := ⟨n - k - 1, by omega⟩
  have hlt := (word_lt_iff hbase hend hle hk.le).mpr hk
  have hdone := testFunctionStart_of_check hlt hcheck
  rw [(loop_testFunctionStart_skip hbase hend hle hk.le hskip).1, removeSecureBootCheck,
    loop_done (by rw [hdone])]

/-- What holds of the round at every place up to the first check, whose round is the last. -/
theorem round_upTo_check {s : Address} (hs : ∃ i ≤ k, s = word base i) :
    (∀ a, (testFunctionStart mem endAddr s).value = .done a → a = removeCheck mem (word base k)) ∧
      ∀ s', (testFunctionStart mem endAddr s).value = .more s' → ∃ i ≤ k, s' = word base i := by
  obtain ⟨i, hi, rfl⟩ := hs
  have hlt := (word_lt_iff hbase hend hle (by omega)).mpr (Nat.lt_of_le_of_lt hi hk)
  rcases hi.eq_or_lt with rfl | hi
  · rw [testFunctionStart_of_check hlt hcheck]
    exact ⟨fun a ha => (Next.done.inj ha).symm, fun s' hs' => (by cases hs')⟩
  · obtain ⟨log, hround, -⟩ := testFunctionStart_of_not_check hlt (hskip i hi)
    rw [hround]
    refine ⟨fun a ha => (by cases ha), fun s' hs' => ⟨i + 1, hi, ?_⟩⟩
    rw [← word_succ, Next.more.inj hs']

theorem eq_of_value_removeSecureBootCheck
    (h : (removeSecureBootCheck mem n base endAddr).value = some patched) :
    patched = removeCheck mem (word base k) :=
  value_loop (I := fun s => ∃ i ≤ k, s = word base i)
    (Q := fun patched => patched = removeCheck mem (word base k))
    (fun _ _ hs => round_upTo_check hbase hend hle hk hcheck hskip hs)
    ⟨0, Nat.zero_le k, word_zero.symm⟩ h

end Search

/-- A check leaves no trace of its prologue. -/
theorem removeCheck_ne (h : IsCheckAt mem start) : removeCheck mem start ≠ mem := by
  intro heq
  have hfirst := (checkRemoved_removeCheck mem start).first
  have hlow : (mem.read64 start).setWidth 32 = mem.read32 start := by
    rw [Memory.read64]
    exact BitVec.setWidth_append_eq_right
  have hprologue : mem.read64 start = 0xA9015BF5A9BE53F3 := h.starts
  rw [heq, ← hlow, hprologue] at hfirst
  exact absurd hfirst (by decide)

/-- The function with the signature is a place of the search, and so is the first check, which is
not behind it. -/
theorem HasSignature.exists_first (hbase : 4 ∣ base.toNat)
    (h : HasSignature mem base endAddr start) :
    ∃ j k, start = word base j ∧ k ≤ j ∧ base.toNat + 4 * j + 272 ≤ endAddr.toNat ∧
      IsCheckAt mem (word base k) ∧ ∀ i < k, ¬IsCheckAt mem (word base i) := by
  classical
  obtain ⟨j, rfl, hnat⟩ := exists_word hbase h.aligned
    (Nat.le_trans (Nat.le_add_right _ _) h.above)
  have hfound : ∃ k, IsCheckAt mem (word base k) := ⟨j, h.check⟩
  refine ⟨j, Nat.find hfound, rfl, Nat.find_min' hfound h.check, ?_, Nat.find_spec hfound,
    fun i hi => Nat.find_min hfound hi⟩
  have := h.below
  omega

/-- The lowest function with the signature is the first check if that one has the signature. -/
theorem HasSignature.eq_first (hbase : 4 ∣ base.toNat) (h : HasSignature mem base endAddr start)
    (hnat : (word base k).toNat = base.toNat + 4 * k)
    (hskip : ∀ i < k, ¬IsCheckAt mem (word base i))
    (hfirst : HasSignature mem base endAddr (word base k))
    (hlowest : ∀ lower < start, ¬HasSignature mem base endAddr lower) : start = word base k := by
  obtain ⟨i, rfl, hi⟩ := exists_word hbase h.aligned
    (Nat.le_trans (Nat.le_add_right _ _) h.above)
  have hki : k ≤ i := by
    by_contra hlt
    exact hskip i (Nat.not_le.mp hlt) h.check
  have hik : ¬k < i := by
    intro hlt
    apply hlowest (word base k) _ hfirst
    rw [BitVec.lt_def, hi, hnat]
    omega
  rw [Nat.le_antisymm hki (Nat.not_lt.mp hik)]

/-- The search reads in front of the range if the function could start with the range. -/
theorem PatchConfined.not_first (hbase : 4 ∣ base.toNat) (hend : 4 ∣ endAddr.toNat)
    (hlt : base < endAddr) (h : PatchConfined mem base endAddr) :
    ¬(StartsFunction mem base ∧ EndsFunction mem base) := by
  rintro ⟨hstarts, hends⟩
  have hlt' : base.toNat < endAddr.toNat := hlt
  have hwords : 0 < rangeWords base endAddr := by
    rw [rangeWords]
    omega
  have hfurther : FurtherRead mem (word base 0) ⟨base - arm64TotalInstructionLength 1, 4⟩ := by
    rw [word_zero]
    exact ⟨hstarts, .inr ⟨hends, rfl⟩⟩
  have hread := mem_log_removeSecureBootCheck hbase hend hlt'.le hwords
    (fun i hi => absurd hi (Nat.not_lt_zero i)) (.inr hfurther)
  obtain ⟨hfront, hbehind⟩ := h.inside _ _ hread
  have hfour : (arm64TotalInstructionLength 1).toNat = 4 := rfl
  have hlast := endAddr.isLt
  dsimp only at hfront hbehind
  rw [BitVec.toNat_sub, hfour] at hfront hbehind
  omega

/-- Without a check the search reads behind the range, so it finds one. -/
theorem PatchConfined.exists_check (hbase : 4 ∣ base.toNat) (hend : 4 ∣ endAddr.toNat)
    (hlt : base < endAddr) (h : PatchConfined mem base endAddr) :
    ∃ k < rangeWords base endAddr, IsCheckAt mem (word base k) ∧
      ∀ i < k, ¬IsCheckAt mem (word base i) := by
  classical
  have hlt' : base.toNat < endAddr.toNat := hlt
  by_cases hfound : ∃ k, k < rangeWords base endAddr ∧ IsCheckAt mem (word base k)
  · obtain ⟨hk, hcheck⟩ := Nat.find_spec hfound
    exact ⟨Nat.find hfound, hk, hcheck, fun i hi hcheck' =>
      Nat.find_min hfound hi ⟨Nat.lt_trans hi hk, hcheck'⟩⟩
  · exfalso
    have hwords : rangeWords base endAddr = (endAddr.toNat - base.toNat) / 4 := rfl
    have hlast : rangeWords base endAddr - 1 < rangeWords base endAddr := by omega
    have hskip : ∀ i < rangeWords base endAddr - 1, ¬IsCheckAt mem (word base i) :=
      fun i hi hcheck => hfound ⟨i, by omega, hcheck⟩
    have hread := mem_log_removeSecureBootCheck hbase hend hlt'.le hlast hskip (.inl rfl)
    have hbehind := (h.inside _ _ hread).2
    rw [toNat_word hlt'.le hlast.le] at hbehind
    dsimp only at hbehind
    omega

theorem PatchConfined.exists_signature (hbase : 4 ∣ base.toNat) (hend : 4 ∣ endAddr.toNat)
    (hlt : base < endAddr) (h : PatchConfined mem base endAddr) :
    ∃ start, HasSignature mem base endAddr start := by
  have hlt' : base.toNat < endAddr.toNat := hlt
  obtain ⟨k, hk, hcheck, hskip⟩ := h.exists_check hbase hend hlt
  have hfirst : k ≠ 0 := by
    rintro rfl
    rw [word_zero] at hcheck
    exact h.not_first hbase hend hlt ⟨hcheck.starts, hcheck.ends⟩
  -- if no signature is in the range, the check that is removed changes a memory that must not
  -- change
  by_contra hnone
  have hvalue := value_removeSecureBootCheck hbase hend hlt'.le hk hcheck hskip
    (Nat.lt_succ_self k)
  exact removeCheck_ne hcheck
    (h.unchanged _ _ hvalue fun start hstart => hnone ⟨start, hstart⟩)

/-- What a function whose end is in the range reads behind its start is in the range. -/
theorem inUfpRange_behind (offset size : ℕ) (hi : base.toNat + 4 * i + 272 ≤ endAddr.toNat)
    (hsize : offset + size ≤ 272) :
    InUfpRange base endAddr ⟨word base i + BitVec.ofNat 64 offset, size⟩ := by
  have hlt := endAddr.isLt
  have hword := word_toNat (show base.toNat + 4 * i < 2 ^ 64 by omega)
  have hlocation : (word base i + BitVec.ofNat 64 offset).toNat =
      base.toNat + 4 * i + offset := by
    rw [BitVec.toNat_add, hword, BitVec.toNat_ofNat]
    omega
  rw [InUfpRange, hlocation]
  dsimp only
  omega

theorem inUfpRange_padding (hi : base.toNat + 4 * i + 272 ≤ endAddr.toNat) (hfirst : i ≠ 0) :
    InUfpRange base endAddr ⟨word base i - arm64TotalInstructionLength 1, 4⟩ := by
  have hlt := endAddr.isLt
  have hword := word_toNat (show base.toNat + 4 * i < 2 ^ 64 by omega)
  have hfour : (arm64TotalInstructionLength 1).toNat = 4 := rfl
  have hlocation : (word base i - arm64TotalInstructionLength 1).toNat =
      base.toNat + 4 * i - 4 := by
    rw [BitVec.toNat_sub, hword, hfour]
    omega
  rw [InUfpRange, hlocation]
  dsimp only
  omega

/-- A round reads and writes inside of the range if the end of the function would be in it and
its padding as well. -/
theorem inUfpRange_of_mem_log {a : UfpAccess} (hi : base.toNat + 4 * i + 272 ≤ endAddr.toNat)
    (hfirst : StartsFunction mem (word base i) ∧ EndsFunction mem (word base i) → i ≠ 0)
    (ha : a ∈ (testFunctionStart mem endAddr (word base i)).log) : InUfpRange base endAddr a := by
  have hlt : word base i < endAddr := by
    have hend := endAddr.isLt
    rw [BitVec.lt_def, word_toNat (by omega)]
    omega
  have hstart {size : ℕ} (hsize : size ≤ 272) : InUfpRange base endAddr ⟨word base i, size⟩ := by
    have hread := inUfpRange_behind 0 size hi (by omega)
    rwa [BitVec.add_zero] at hread
  have hfunctionEnd := inUfpRange_behind 264 8 hi (by omega)
  by_cases hcheck : IsCheckAt mem (word base i)
  · rw [testFunctionStart_of_check hlt hcheck] at ha
    have hpadding := inUfpRange_padding hi (hfirst ⟨hcheck.starts, hcheck.ends⟩)
    have hsecond := inUfpRange_behind 4 4 hi (by omega)
    simp only [List.mem_cons, List.not_mem_nil, or_false] at ha
    rcases ha with rfl | rfl | rfl | rfl | rfl
    · exact hstart (by omega)
    · exact hfunctionEnd
    · exact hpadding
    · exact hstart (by omega)
    · exact hsecond
  · obtain ⟨log, hround, hlog⟩ := testFunctionStart_of_not_check hlt hcheck
    rw [hround, List.mem_cons, hlog] at ha
    rcases ha with rfl | ⟨hstarts, rfl | ⟨hends, rfl⟩⟩
    · exact hstart (by omega)
    · exact hfunctionEnd
    · exact inUfpRange_padding hi (hfirst ⟨hstarts, hends⟩)

/-- A range without words is not looked at. -/
theorem patchConfined_of_le (hle : endAddr ≤ base) : PatchConfined mem base endAddr := by
  have hround : testFunctionStart mem endAddr base = ⟨.done mem, []⟩ :=
    testFunctionStart_of_le (BitVec.not_lt.mpr hle)
  have hsearch (n : ℕ) : removeSecureBootCheck mem (n + 1) base endAddr = ⟨some mem, []⟩ := by
    rw [removeSecureBootCheck, loop_done (by rw [hround]), hround]
  refine ⟨?_, ?_, ?_, ?_⟩
  · intro n hn
    obtain ⟨m, rfl⟩ : ∃ m, n = m + 1 := ⟨n - 1, by omega⟩
    exact ⟨mem, by rw [hsearch]⟩
  · intro n a ha
    cases n with
    | zero => exact absurd ha List.not_mem_nil
    | succ n =>
      rw [hsearch] at ha
      exact absurd ha List.not_mem_nil
  · intro n patched hvalue _
    cases n with
    | zero => cases hvalue
    | succ n =>
      rw [hsearch] at hvalue
      exact (Option.some_inj.mp hvalue).symm
  · intro n patched start _ hstart _
    have hle : endAddr.toNat ≤ base.toNat := hle
    have := hstart.above
    have := hstart.below
    omega

/-- The range has a function with the signature and does not start with one whose padding would
lie in front of it. -/
structure SignatureInside (mem : Arm64.Memory) (base endAddr : Address) : Prop where
  signature : ∃ start, HasSignature mem base endAddr start
  first : ¬(StartsFunction mem base ∧ EndsFunction mem base)

theorem SignatureInside.patchConfined (hbase : 4 ∣ base.toNat) (hend : 4 ∣ endAddr.toNat)
    (h : SignatureInside mem base endAddr) : PatchConfined mem base endAddr := by
  obtain ⟨start, hstart⟩ := h.signature
  obtain ⟨j, k, rfl, hkj, hj, hcheck, hskip⟩ := hstart.exists_first hbase
  have hwords : rangeWords base endAddr = (endAddr.toNat - base.toNat) / 4 := rfl
  have hle : base ≤ endAddr := by
    rw [BitVec.le_def]
    omega
  have hk : k < rangeWords base endAddr := by omega
  have hfirst : ∀ i, StartsFunction mem (word base i) ∧ EndsFunction mem (word base i) →
      i ≠ 0 := by
    rintro i hfunction rfl
    rw [word_zero] at hfunction
    exact h.first hfunction
  have hsignature : HasSignature mem base endAddr (word base k) := by
    have hnat := toNat_word hle hk.le
    have hne := hfirst k ⟨hcheck.starts, hcheck.ends⟩
    exact ⟨by omega, by omega, by omega, hcheck⟩
  refine ⟨fun n hn => ⟨_, value_removeSecureBootCheck hbase hend hle hk hcheck hskip
    (Nat.lt_trans hk hn)⟩, ?_, ?_, ?_⟩
  · intro n
    refine forall_log_loop (I := fun s => ∃ i ≤ k, s = word base i)
      (P := InUfpRange base endAddr) ?_ ⟨0, Nat.zero_le k, word_zero.symm⟩
    rintro n s ⟨i, hi, rfl⟩
    refine ⟨fun a ha => inUfpRange_of_mem_log (by omega) (hfirst i) ha, ?_⟩
    exact (round_upTo_check hbase hend hle hk hcheck hskip ⟨i, hi, rfl⟩).2
  · intro n patched _ hnone
    exact absurd hsignature (hnone _)
  · intro n patched start hvalue hother hlowest
    rw [eq_of_value_removeSecureBootCheck hbase hend hle hk hcheck hskip hvalue,
      hother.eq_first hbase (toNat_word hle hk.le) hskip hsignature hlowest]
    exact checkRemoved_removeCheck mem _

/-- The patch is confined to the range exactly when the range is empty or has the function. -/
theorem patchConfined_iff (mem : Arm64.Memory) (hbase : 4 ∣ base.toNat)
    (hend : 4 ∣ endAddr.toNat) :
    PatchConfined mem base endAddr ↔ endAddr ≤ base ∨ SignatureInside mem base endAddr := by
  constructor
  · intro h
    by_cases hle : endAddr ≤ base
    · exact .inl hle
    · have hlt := BitVec.not_le.mp hle
      exact .inr ⟨h.exists_signature hbase hend hlt, h.not_first hbase hend hlt⟩
  · rintro (hle | hinside)
    · exact patchConfined_of_le hle
    · exact hinside.patchConfined hbase hend

/-- An image of zeros. -/
def zeroImage : Arm64.Memory := fun _ => 0

theorem zeroImage_patchConfined_iff : PatchConfined zeroImage 0x10000 0x11000 ↔
    (0x11000 : Address) ≤ 0x10000 ∨ SignatureInside zeroImage 0x10000 0x11000 :=
  patchConfined_iff zeroImage (by decide) (by decide)

/-- The last word of the image is read together with the one behind the image. -/
theorem zeroImage_not_patchConfined : ¬PatchConfined zeroImage 0x10000 0x11000 := by
  intro h
  have hcheck (start : Address) : ¬IsCheckAt zeroImage start := by
    intro hcheck
    have hzero : zeroImage.read64 start = 0 := by
      simp only [Memory.read64, Memory.read32, zeroImage]
      decide
    have hprologue : zeroImage.read64 start = 0xA9015BF5A9BE53F3 := hcheck.starts
    rw [hzero] at hprologue
    exact absurd hprologue (by decide)
  have hread : ⟨word 0x10000 1023, 8⟩ ∈
      (removeSecureBootCheck zeroImage (1 + 1023) 0x10000 0x11000).log :=
    mem_log_removeSecureBootCheck (by decide) (by decide) (by decide) (by decide)
      (fun i _ => hcheck (word 0x10000 i)) (.inl rfl)
  exact absurd (h.inside _ _ hread).2 (by decide)

end ProjectMu
