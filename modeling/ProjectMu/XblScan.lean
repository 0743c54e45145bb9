import ProjectMu.XblProtocols
import ProjectMu.WordLoop

/-!
# Whether the scan ends in its region

A function is followed to the first return instruction, wherever that is. The scan itself
reads two words at each place, so at the last place of a region it reads the word behind it.
-/

namespace ProjectMu

open AccessLog Arm64

variable {mem : Arm64.Memory} {n : ℕ} {limit : Address}

/-- An instruction word lies inside a region. -/
def InRegion (address length : BitVec 64) (a : Address) : Prop :=
  address.toNat ≤ a.toNat ∧ a.toNat + 4 ≤ address.toNat + length.toNat

/-- The scan ends, and reads no instruction word outside of its region. -/
def ScansInside (mem : Arm64.Memory) (address length : BitVec 64)
    (schedulerInterfaceAddr dtbExtensionAddr : Address) : Prop :=
  (∃ n result, (getXblHobAddresses mem n address length schedulerInterfaceAddr
    dtbExtensionAddr).value = some result) ∧
  ∀ n a, .read a ∈ (getXblHobAddresses mem n address length schedulerInterfaceAddr
    dtbExtensionAddr).log → InRegion address length a

theorem current_saveAdrpValue (f : HobFunction) (instruction : BitVec 32) :
    (saveAdrpValue f instruction).current = f.current := by
  rw [saveAdrpValue]
  split <;> rfl

theorem current_appendAddressOffset (protocolGuid : BitVec 128) (f : HobFunction)
    (instruction : BitVec 32) :
    (appendAddressOffset mem protocolGuid f instruction).value.current = f.current := by
  unfold appendAddressOffset parseAddInstruction
  dsimp only
  by_cases h : f.adrpRegValue (instruction &&& 0x1F).toNat = 0
  · rw [if_pos h]
    rfl
  · rw [if_neg h, value_access]
    split <;> rfl

theorem current_followHobInstruction (protocolGuid : BitVec 128) (f : HobFunction)
    (instruction : BitVec 32) :
    (followHobInstruction mem protocolGuid f instruction).value.current = f.current := by
  rw [followHobInstruction]
  split
  · rw [current_appendAddressOffset, current_saveAdrpValue]
  · exact current_saveAdrpValue f instruction

/-- A function ends at a return instruction. -/
theorem parseHobInstruction_of_ret {protocolGuid : BitVec 128} {f : HobFunction}
    (h : mem.read32 f.current = 0xD65F03C0) : parseHobInstruction mem protocolGuid f =
      ⟨.done (if f.guidMatched then f.protocolAddress else 0), [.read f.current]⟩ := by
  rw [parseHobInstruction, access_bind, if_pos h]
  rfl

theorem parseHobInstruction_of_ne {protocolGuid : BitVec 128} {f : HobFunction}
    (h : mem.read32 f.current ≠ 0xD65F03C0) :
    let followed := followHobInstruction mem protocolGuid f (mem.read32 f.current)
    parseHobInstruction mem protocolGuid f =
      ⟨.more followed.value.next, .read f.current :: followed.log⟩ := by
  rw [parseHobInstruction, access_bind, if_neg h, bind_pure_eq]

theorem loop_parseHobInstruction_ends_iff {protocolGuid : BitVec 128} {f : HobFunction} :
    (∃ a, (loop (fun _ => parseHobInstruction mem protocolGuid) n f).value = some a) ↔
      ∃ k < n, mem.read32 (word f.current k) = 0xD65F03C0 := by
  induction n generalizing f with
  | zero => exact iff_of_false nofun fun ⟨_, hk, _⟩ => Nat.not_lt_zero _ hk
  | succ n ih =>
    by_cases h : mem.read32 f.current = 0xD65F03C0
    · refine iff_of_true ⟨if f.guidMatched then f.protocolAddress else 0, ?_⟩
        ⟨0, Nat.succ_pos n, by rwa [word_zero]⟩
      rw [loop_done (by rw [parseHobInstruction_of_ret h])]
    · rw [loop_more (by rw [parseHobInstruction_of_ne h]), ih, HobFunction.next,
        current_followHobInstruction]
      constructor
      · rintro ⟨k, hk, hret⟩
        exact ⟨k + 1, by omega, by rwa [← word_add_four]⟩
      · rintro ⟨k, hk, hret⟩
        cases k with
        | zero => exact absurd hret (by rwa [word_zero])
        | succ k => exact ⟨k, by omega, by rwa [word_add_four]⟩

/-- A function is followed to an end if and only if a return instruction comes after its
start. -/
theorem parseHobFunction_ends_iff {protocolGuid : BitVec 128} {functionStart : Address} :
    (∃ n address, (parseHobFunction mem n functionStart protocolGuid).value = some address) ↔
      ∃ k, mem.read32 (word functionStart k) = 0xD65F03C0 := by
  simp only [parseHobFunction, loop_parseHobInstruction_ends_iff]
  constructor
  · rintro ⟨n, k, -, hret⟩
    exact ⟨k, hret⟩
  · rintro ⟨k, hret⟩
    exact ⟨k + 1, k, Nat.lt_succ_self k, hret⟩

theorem locateProtocols_value (s : XblScan) :
    (locateProtocols mem n s).value = .out ∨
      ∃ scheduler dtb, (locateProtocols mem n s).value = .more ⟨s.current + 4, scheduler, dtb⟩ := by
  rw [locateProtocols, value_bind]
  cases (locateProtocol mem n s.current gEfiSchedulerInterfaceHobGuid
    s.schedulerInterfaceAddr).value with
  | none => exact .inl rfl
  | some scheduler =>
    dsimp only
    rw [value_bind]
    cases (locateProtocol mem n s.current gEfiDtbExtensionHobGuid s.dtbExtensionAddr).value with
    | none => exact .inl rfl
    | some dtb => exact .inr ⟨scheduler, dtb, rfl⟩

/-- A round of the scan reads the word after the place it looks at, and does not end. -/
theorem scanXblHob_of_lt {s : XblScan} (h : s.current < limit) :
    .read (s.current + 4) ∈ (scanXblHob mem limit n s).log ∧
      ((scanXblHob mem limit n s).value = .out ∨
        ∃ scheduler dtb,
          (scanXblHob mem limit n s).value = .more ⟨s.current + 4, scheduler, dtb⟩) := by
  rw [scanXblHob, if_pos h, access_bind, access_bind]
  refine ⟨List.mem_cons_of_mem _ List.mem_cons_self, ?_⟩
  dsimp only
  split
  · exact .inr ⟨_, _, rfl⟩
  · rw [access_bind]
    dsimp only
    split
    · exact .inr ⟨_, _, rfl⟩
    · exact locateProtocols_value s

/-- A scan that ends before `limit` has read the word there. -/
theorem read_limit_of_ends {s : XblScan} {result : Address × Address}
    (hlt : s.current < limit) (haligned : 4 ∣ (limit - s.current).toNat)
    (h : (loop (scanXblHob mem limit) n s).value = some result) :
    .read limit ∈ (loop (scanXblHob mem limit) n s).log := by
  induction n generalizing s with
  | zero => cases h
  | succ n ih =>
    obtain ⟨hread, hout | ⟨scheduler, dtb, hmore⟩⟩ := @scanXblHob_of_lt mem n limit s hlt
    · rw [loop_out hout] at h
      cases h
    · by_cases hlast : s.current + 4 = limit
      · rw [← hlast] at hread ⊢
        exact log_step_subset hread
      · rw [loop_more hmore] at h ⊢
        refine List.mem_append_right _ (ih ?_ ?_ h)
        · dsimp only
          bv_omega
        · dsimp only
          bv_omega

/-- The word behind the region is read at its last place, so the scan stays inside exactly
where it has no place to look at. -/
theorem scansInside_iff (mem : Arm64.Memory) (address length : BitVec 64)
    (schedulerInterfaceAddr dtbExtensionAddr : Address) (hlength : 4 ∣ length.toNat) :
    ScansInside mem address length schedulerInterfaceAddr dtbExtensionAddr ↔
      ¬address < address + length := by
  constructor
  · rintro ⟨⟨n, result, hends⟩, hinside⟩ hlt
    have hnonempty : ¬(address = 0 ∧ length = 0) := by
      rintro ⟨rfl, rfl⟩
      exact absurd hlt (by decide)
    rw [getXblHobAddresses, if_neg hnonempty] at hends
    have hread := read_limit_of_ends hlt (by rwa [offset_sub]) hends
    have hin := hinside n (address + length) (by rwa [getXblHobAddresses, if_neg hnonempty])
    rw [InRegion] at hin
    bv_omega
  · intro hge
    by_cases hempty : address = 0 ∧ length = 0
    · simp [ScansInside, getXblHobAddresses, hempty]
    · let s : XblScan := ⟨address, schedulerInterfaceAddr, dtbExtensionAddr⟩
      have hdone (n) : scanXblHob mem (address + length) n s = pure (.done s.addresses) :=
        if_neg hge
      rw [ScansInside]
      simp only [getXblHobAddresses, if_neg hempty]
      constructor
      · exact ⟨1, s.addresses, by rw [loop_done (by rw [hdone]; rfl)]⟩
      · intro n a ha
        cases n with
        | zero => cases ha
        | succ n =>
          rw [loop_done (by rw [hdone]; rfl), hdone] at ha
          cases ha

/-- A function that starts at the end of a region and has no return instruction: nine words at
0x1000, and nothing else in memory. -/
def functionAtEnd : Arm64.Memory := fun a =>
  ([0xFF, 0x83, 0x00, 0xD1, 0xFD, 0x7B, 0x01, 0xA9] ++ List.replicate 24 0 ++
    [0x00, 0x01, 0x80, 0x52] : List (BitVec 8)).getD (a - 0x1000).toNat 0

theorem scansInside_functionAtEnd_iff : ScansInside functionAtEnd 0x1000 0x24 0 0 ↔
    ¬(0x1000 : BitVec 64) < 0x1000 + 0x24 :=
  scansInside_iff functionAtEnd 0x1000 0x24 0 0 ⟨9, rfl⟩

theorem read32_setWidth (mem : Arm64.Memory) (a : Address) :
    (mem.read32 a).setWidth 8 = mem a := by
  rw [Memory.read32]
  ext i hi
  rw [BitVec.getElem_setWidth, BitVec.getLsbD_append, if_pos hi, BitVec.getLsbD_eq_getElem hi]

theorem functionAtEnd_not_ret (a : Address) : functionAtEnd.read32 a ≠ 0xD65F03C0 := by
  intro h
  have hlow : functionAtEnd a = 0xC0 := by
    rw [← read32_setWidth functionAtEnd a, h]
    rfl
  rw [functionAtEnd, List.getD_eq_getElem?_getD] at hlow
  cases hget : (([0xFF, 0x83, 0x00, 0xD1, 0xFD, 0x7B, 0x01, 0xA9] ++ List.replicate 24 0 ++
    [0x00, 0x01, 0x80, 0x52] : List (BitVec 8)))[(a - 0x1000).toNat]? with
  | none =>
    rw [hget] at hlow
    cases hlow
  | some b =>
    rw [hget] at hlow
    obtain rfl : b = 0xC0 := hlow
    exact absurd (List.mem_of_getElem? hget) (by decide)

theorem parseHobFunction_functionAtEnd (functionStart : Address) (protocolGuid : BitVec 128) :
    (parseHobFunction functionAtEnd n functionStart protocolGuid).value = none := by
  cases hends : (parseHobFunction functionAtEnd n functionStart protocolGuid).value with
  | none => rfl
  | some address =>
    obtain ⟨k, hret⟩ := parseHobFunction_ends_iff.mp ⟨n, address, hends⟩
    exact absurd hret (functionAtEnd_not_ret _)

theorem scanXblHob_functionAtEnd :
    (scanXblHob functionAtEnd (0x1000 + 0x24) n ⟨0x1000, 0, 0⟩).value = .out := by
  have hfirst : ¬(functionAtEnd.read32 (0x1000 + 4) ++ functionAtEnd.read32 0x1000 : BitVec 64) ≠
      0xA9017BFDD10083FF := by decide +kernel
  have heighth : ¬functionAtEnd.read32 (0x1000 + 0x20) &&& 0xFFFFFFE0 ≠ 0x52800100 := by
    decide +kernel
  have hscheduler : (locateProtocol functionAtEnd n 0x1000 gEfiSchedulerInterfaceHobGuid 0).value =
      none := by
    rw [locateProtocol, if_pos rfl, parseHobFunction_functionAtEnd]
  rw [scanXblHob, if_pos (by decide), value_bind, value_bind, value_access, value_access,
    if_neg hfirst, value_bind, value_access, if_neg heighth, locateProtocols, value_bind,
    hscheduler]
  rfl

/-- The scan of this region does not end. -/
theorem getXblHobAddresses_endless :
    ¬∀ (mem : Arm64.Memory) (address length : BitVec 64)
      (schedulerInterfaceAddr dtbExtensionAddr : Address), 4 ∣ address.toNat → 4 ∣ length.toNat →
      ScansInside mem address length schedulerInterfaceAddr dtbExtensionAddr := by
  intro h
  obtain ⟨⟨n, result, hends⟩, -⟩ := h functionAtEnd 0x1000 0x24 0 0 ⟨0x400, rfl⟩ ⟨9, rfl⟩
  rw [getXblHobAddresses, if_neg (by decide)] at hends
  cases n with
  | zero => cases hends
  | succ n =>
    rw [loop_out scanXblHob_functionAtEnd] at hends
    cases hends

end ProjectMu
