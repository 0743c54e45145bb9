import ProjectMu.Arm64Address
import ProjectMu.XblScan

/-!
# The tracked addresses against the processor

In straight-line code of ADRP and ADD instructions, the address tracked for a register is what
the ADRP and the ADDs into this register add up to. Which register an ADD reads is not looked
at, so the sum of another register is compared as something else.
-/

namespace ProjectMu

open AccessLog Arm64 AddressInstr

variable {mem : Arm64.Memory} {n : ℕ} {f : HobFunction} {protocolGuid : BitVec 128}
  {i : AddressInstr} {is : List AddressInstr}

/-- The addresses of registers after an instruction. A register has the address of the last ADRP
into it, and the ADDs into it since are added; 0 stands for no address. -/
def ownAddress (pc : Address) : AddressInstr → (ℕ → BitVec 64) → ℕ → BitVec 64
  | .adrp rd imm, own => Function.update own rd.toNat (page pc imm)
  | .add rd _ imm, own =>
    if own rd.toNat = 0 then own
    else Function.update own rd.toNat (own rd.toNat + imm.setWidth 64)

def ownAddresses : Address → List AddressInstr → (ℕ → BitVec 64) → ℕ → BitVec 64
  | _, [], own => own
  | pc, i :: is, own => ownAddresses (pc + 4) is (ownAddress pc i own)

/-- A straight-line function and its return instruction are in memory. -/
structure HoldsFunction (mem : Arm64.Memory) (functionStart : Address)
    (is : List AddressInstr) : Prop where
  body : ∀ k i, is[k]? = some i → mem.read32 (word functionStart k) = i.encode
  ret : mem.read32 (word functionStart is.length) = 0xD65F03C0

/-- Bit 26 tells the return instruction from both. -/
theorem encode_ne_ret (i : AddressInstr) : encode i ≠ 0xD65F03C0 := by
  intro h
  have hbit := congrArg (fun w : BitVec 32 => w.getLsbD 26) h
  cases i with
  | adrp rd imm =>
    rw [encode, BitVec.getLsbD_append, BitVec.getLsbD_append, BitVec.getLsbD_append] at hbit
    cases hbit
  | add rd rn imm =>
    rw [encode, BitVec.getLsbD_append, BitVec.getLsbD_append, BitVec.getLsbD_append] at hbit
    cases hbit

theorem isAdrpInstruction_adrp (rd : BitVec 5) (imm : BitVec 21) :
    isAdrpInstruction (encode (.adrp rd imm)) = true := by
  have hmask : (0x9F000000 : BitVec 32) = 1#1 ++ 0#2 ++ 0b11111#5 ++ 0#19 ++ 0#5 := rfl
  rw [isAdrpInstruction, hmask, encode, BitVec.and_append, BitVec.and_append, BitVec.and_append,
    BitVec.and_append, BitVec.and_zero, BitVec.and_zero, BitVec.and_zero]
  rfl

theorem isAdrpInstruction_add (rd rn : BitVec 5) (imm : BitVec 12) :
    isAdrpInstruction (encode (.add rd rn imm)) = false := by
  rw [isAdrpInstruction, beq_eq_false_iff_ne]
  intro h
  have hbit := congrArg (fun w : BitVec 32 => w.getLsbD 24) h
  rw [encode, BitVec.getLsbD_and, BitVec.getLsbD_append, BitVec.getLsbD_append,
    BitVec.getLsbD_append] at hbit
  cases hbit

theorem isAddInstruction_adrp (rd : BitVec 5) (imm : BitVec 21) :
    isAddInstruction (encode (.adrp rd imm)) = false := by
  rw [isAddInstruction, beq_eq_false_iff_ne]
  intro h
  have hbit := congrArg (fun w : BitVec 32 => w.getLsbD 24) h
  rw [encode, BitVec.getLsbD_and, BitVec.getLsbD_append, BitVec.getLsbD_append,
    BitVec.getLsbD_append] at hbit
  cases hbit

theorem isAddInstruction_add (rd rn : BitVec 5) (imm : BitVec 12) :
    isAddInstruction (encode (.add rd rn imm)) = true := by
  have hmask : (0xFFC00000 : BitVec 32) = 0b1111111111#10 ++ 0#12 ++ 0#5 ++ 0#5 := rfl
  rw [isAddInstruction, hmask, encode, BitVec.and_append, BitVec.and_append, BitVec.and_append,
    BitVec.and_zero, BitVec.and_zero, BitVec.and_zero]
  rfl

theorem and_register (hi : BitVec 27) (rd : BitVec 5) :
    ((hi ++ rd : BitVec 32) &&& 0x1F).toNat = rd.toNat := by
  have hmask : (0x1F : BitVec 32) = 0#27 ++ BitVec.allOnes 5 := rfl
  rw [hmask, BitVec.and_append, BitVec.and_zero, BitVec.and_allOnes, BitVec.toNat_append]
  exact Nat.zero_or _

theorem signExtend_signExtend (imm : BitVec 21) :
    (imm.signExtend 32).signExtend 64 = imm.signExtend 64 := by
  ext j hj
  simp only [BitVec.getElem_signExtend, BitVec.msb_signExtend]
  grind

/-- An immediate that is extended by hand to 32 bits is sign extended. -/
theorem imm21_signExtend (imm : BitVec 21) :
    let imm21 := imm.setWidth 32
    (if imm21 &&& 0x100000 ≠ 0 then imm21 ||| 0xFFE00000 else imm21).signExtend 64 =
      imm.signExtend 64 := by
  intro imm21
  have hzero : imm21 = 0#11 ++ imm := BitVec.setWidth_eq_append (by decide)
  have hsign : imm21 &&& 0x100000 = if imm.msb then 0x100000 else 0 := by
    refine (BitVec.and_twoPow imm21 20).trans ?_
    rw [BitVec.msb_eq_getLsbD_last, hzero, BitVec.getLsbD_append, if_pos (Nat.lt_succ_self 20)]
    congr 1
  have hextend : imm.signExtend 32 = (if imm.msb then BitVec.allOnes 11 else 0#11) ++ imm :=
    BitVec.signExtend_eq_append_of_le (by decide)
  rw [← signExtend_signExtend, hextend, hsign]
  congr 1
  cases imm.msb with
  | true =>
    have hones : (0xFFE00000 : BitVec 32) = BitVec.allOnes 11 ++ 0#21 := rfl
    rw [if_pos rfl, if_pos rfl, if_pos (by decide), hzero, hones, BitVec.or_append,
      BitVec.or_zero, BitVec.zero_or]
  | false =>
    rw [if_neg (by decide), hzero]
    rfl

theorem imm21_fields (imm : BitVec 21) :
    (imm.extractLsb' 2 19).setWidth 32 <<< 2 ||| (imm.extractLsb' 0 2).setWidth 32 =
      imm.setWidth 32 := by
  ext j hj
  simp only [BitVec.getElem_or, BitVec.getElem_shiftLeft, BitVec.getElem_setWidth,
    BitVec.getLsbD_extractLsb']
  grind

theorem parseAdrpInstruction_encode (rd : BitVec 5) (imm : BitVec 21) (pc : Address) :
    parseAdrpInstruction (encode (.adrp rd imm)) pc = (page pc imm, rd.toNat) := by
  have hhi : encode (.adrp rd imm) >>> 5 &&& 0x7FFFF = (imm.extractLsb' 2 19).setWidth 32 := by
    refine (ushiftRight_and_mask _ 5 (n := 19) (by decide)).trans ?_
    rw [encode, BitVec.extractLsb'_append_eq_of_le (by decide)]
    exact congrArg _ BitVec.extractLsb'_append_eq_right
  have hlo : encode (.adrp rd imm) >>> 29 &&& 0x3 = (imm.extractLsb' 0 2).setWidth 32 := by
    refine (ushiftRight_and_mask _ 29 (n := 2) (by decide)).trans ?_
    rw [encode, BitVec.extractLsb'_append_eq_of_le (by decide),
      BitVec.extractLsb'_append_eq_of_le (by decide),
      BitVec.extractLsb'_append_eq_of_le (by decide)]
    exact congrArg _ BitVec.extractLsb'_append_eq_right
  rw [parseAdrpInstruction, hhi, hlo, imm21_fields, imm21_signExtend]
  exact congrArg _ (and_register _ rd)

theorem parseAddInstruction_encode (rd rn : BitVec 5) (imm : BitVec 12) :
    parseAddInstruction (encode (.add rd rn imm)) = (imm.setWidth 32, rn.toNat, rd.toNat) := by
  have himm : encode (.add rd rn imm) >>> 10 &&& 0xFFF = imm.setWidth 32 := by
    refine (ushiftRight_and_mask _ 10 (n := 12) (by decide)).trans ?_
    rw [encode, BitVec.extractLsb'_append_eq_of_le (by decide),
      BitVec.extractLsb'_append_eq_of_le (by decide)]
    exact congrArg _ BitVec.extractLsb'_append_eq_right
  have hrn : encode (.add rd rn imm) >>> 5 &&& 0x1F = rn.setWidth 32 := by
    refine (ushiftRight_and_mask _ 5 (n := 5) (by decide)).trans ?_
    rw [encode, BitVec.extractLsb'_append_eq_of_le (by decide)]
    exact congrArg _ BitVec.extractLsb'_append_eq_right
  have hrd : (encode (.add rd rn imm) &&& 0x1F).toNat = rd.toNat := and_register _ rd
  rw [parseAddInstruction, himm, hrn, hrd, BitVec.toNat_setWidth_of_le (by decide)]

/-- An instruction compares the sum of an ADD into a register with an address. -/
def Compares (pc : Address) (own : ℕ → BitVec 64) (i : AddressInstr) (access : XblAccess) :
    Prop :=
  ∃ rd rn imm, i = .add rd rn imm ∧ own rd.toNat ≠ 0 ∧
    access = .compare pc rd.toNat (own rd.toNat + imm.setWidth 64)

theorem saveAdrpValue_adrp (rd : BitVec 5) (imm : BitVec 21) :
    saveAdrpValue f (encode (.adrp rd imm)) =
      { f with adrpRegValue := ownAddress f.current (.adrp rd imm) f.adrpRegValue } := by
  rw [saveAdrpValue, if_pos (isAdrpInstruction_adrp rd imm), parseAdrpInstruction_encode]
  rfl

theorem followHobInstruction_adrp (rd : BitVec 5) (imm : BitVec 21) :
    followHobInstruction mem protocolGuid f (encode (.adrp rd imm)) =
      pure { f with adrpRegValue := ownAddress f.current (.adrp rd imm) f.adrpRegValue } := by
  rw [followHobInstruction, isAddInstruction_adrp, saveAdrpValue_adrp]
  rfl

theorem followHobInstruction_add (rd rn : BitVec 5) (imm : BitVec 12) :
    followHobInstruction mem protocolGuid f (encode (.add rd rn imm)) =
      appendAddressOffset mem protocolGuid f (encode (.add rd rn imm)) := by
  rw [followHobInstruction, if_pos (isAddInstruction_add rd rn imm), saveAdrpValue,
    isAdrpInstruction_add]
  rfl

/-- An instruction of the function moves the addresses on and compares what it computes. -/
theorem followHobInstruction_encode (i : AddressInstr) :
    let followed := followHobInstruction mem protocolGuid f (encode i)
    followed.value.current = f.current ∧
      followed.value.adrpRegValue = ownAddress f.current i f.adrpRegValue ∧
      ∀ access, access ∈ followed.log ↔ Compares f.current f.adrpRegValue i access := by
  cases i with
  | adrp rd imm =>
    rw [followHobInstruction_adrp]
    refine ⟨rfl, rfl, fun access => iff_of_false List.not_mem_nil ?_⟩
    rintro ⟨_, _, _, h, -⟩
    cases h
  | add rd rn imm =>
    rw [followHobInstruction_add, appendAddressOffset, parseAddInstruction_encode, ownAddress]
    by_cases h : f.adrpRegValue rd.toNat = 0
    · simp only [if_pos h]
      refine ⟨rfl, rfl, fun access => iff_of_false List.not_mem_nil ?_⟩
      rintro ⟨_, _, _, heq, hne, -⟩
      cases heq
      exact hne h
    · have himm : (imm.setWidth 32).setWidth 64 = imm.setWidth 64 :=
        BitVec.setWidth_setWidth (by decide)
      simp only [if_neg h, himm]
      refine ⟨?_, ?_, fun access => ?_⟩
      · rw [value_access]
        split <;> rfl
      · rw [value_access]
        split <;> rfl
      · rw [log_access, List.mem_singleton]
        constructor
        · intro haccess
          exact ⟨rd, rn, imm, rfl, h, haccess⟩
        · rintro ⟨_, _, _, heq, -, haccess⟩
          cases heq
          exact haccess

theorem HoldsFunction.tail {functionStart : Address}
    (h : HoldsFunction mem functionStart (i :: is)) :
    HoldsFunction mem (functionStart + 4) is := by
  constructor
  · intro k j hj
    rw [word_add_four]
    exact h.body (k + 1) j hj
  · rw [word_add_four]
    exact h.ret

/-- The comparisons of a function, by the instructions that make them. -/
theorem mem_log_parseHobInstruction_iff (h : HoldsFunction mem f.current is)
    (access : XblAccess) (hcompare : ∀ a, access ≠ .read a) :
    access ∈ (loop (fun _ => parseHobInstruction mem protocolGuid) n f).log ↔
      ∃ k < n, ∃ i, is[k]? = some i ∧ Compares (word f.current k)
        (ownAddresses f.current (is.take k) f.adrpRegValue) i access := by
  induction n generalizing f is with
  | zero => exact iff_of_false List.not_mem_nil fun ⟨_, hk, _⟩ => Nat.not_lt_zero _ hk
  | succ n ih =>
    cases is with
    | nil =>
      have hret : mem.read32 f.current = 0xD65F03C0 := by
        have := h.ret
        rwa [List.length_nil, word_zero] at this
      rw [loop_done (by rw [parseHobInstruction_of_ret hret]), parseHobInstruction_of_ret hret]
      refine iff_of_false ?_ ?_
      · rw [List.mem_singleton]
        exact hcompare _
      · rintro ⟨k, -, i, hi, -⟩
        cases hi
    | cons i is =>
      have hfetch : mem.read32 f.current = i.encode := by
        have := h.body 0 i rfl
        rwa [word_zero] at this
      have hne : mem.read32 f.current ≠ 0xD65F03C0 := by
        rw [hfetch]
        exact encode_ne_ret i
      obtain ⟨hcurrent, hown, hlog⟩ := @followHobInstruction_encode mem f protocolGuid i
      have hrest := @ih (HobFunction.next
        (followHobInstruction mem protocolGuid f i.encode).value) is
      rw [HobFunction.next, hcurrent, hown] at hrest
      dsimp only at hrest
      rw [loop_more (by rw [parseHobInstruction_of_ne hne]), parseHobInstruction_of_ne hne,
        hfetch, List.mem_append, List.mem_cons, or_iff_right (hcompare _), hlog,
        HobFunction.next, hcurrent, hown, hrest h.tail, Nat.exists_lt_succ_left]
      refine or_congr ?_ (exists_congr fun k => ?_)
      · simp [word_zero, ownAddresses]
      · rw [word_add_four, List.getElem?_cons_succ, List.take_succ_cons, ownAddresses]

variable {functionStart : Address}

/-- A function that comes around the address space would run over its own return instruction. -/
theorem HoldsFunction.length_lt (h : HoldsFunction mem functionStart is) :
    is.length < 2 ^ 62 := by
  by_contra hge
  have hback : word functionStart is.length = word functionStart (is.length - 2 ^ 62) := by
    have hmod : 4 * is.length % 2 ^ 64 = 4 * (is.length - 2 ^ 62) % 2 ^ 64 := by omega
    rw [word, word]
    exact congrArg _ (BitVec.eq_of_toNat_eq (by rwa [BitVec.toNat_ofNat, BitVec.toNat_ofNat]))
  have hlt : is.length - 2 ^ 62 < is.length := by omega
  have hbody := h.body _ _ (List.getElem?_eq_getElem hlt)
  rw [← hback, h.ret] at hbody
  exact encode_ne_ret _ hbody.symm

theorem HoldsFunction.word_inj (h : HoldsFunction mem functionStart is) {j k : ℕ}
    (hj : j < is.length) (hk : k < is.length)
    (heq : word functionStart j = word functionStart k) : j = k := by
  have hlength := h.length_lt
  rw [word, word] at heq
  have hnat := congrArg BitVec.toNat ((BitVec.add_right_inj _).mp heq)
  rw [BitVec.toNat_ofNat, BitVec.toNat_ofNat, Nat.mod_eq_of_lt (by omega),
    Nat.mod_eq_of_lt (by omega)] at hnat
  omega

/-- What is compared at an ADD. -/
theorem compare_mem_iff (h : HoldsFunction mem functionStart is) {k : ℕ} {rd rn : BitVec 5}
    {imm : BitVec 12} (hk : is[k]? = some (.add rd rn imm)) (v : Address) :
    .compare (word functionStart k) rd.toNat v ∈
        (parseHobFunction mem n functionStart protocolGuid).log ↔
      let own := ownAddresses functionStart (is.take k) (fun _ => 0) rd.toNat
      k < n ∧ own ≠ 0 ∧ v = own + imm.setWidth 64 := by
  rw [parseHobFunction, mem_log_parseHobInstruction_iff h _ (by simp)]
  constructor
  · rintro ⟨j, hj, i, hi, rd', rn', imm', rfl, hne, haccess⟩
    injection haccess with hword hrd hv
    obtain rfl : k = j := h.word_inj (List.getElem?_eq_some_iff.mp hk).1
      (List.getElem?_eq_some_iff.mp hi).1 hword
    rw [hk] at hi
    cases hi
    exact ⟨hj, hne, hv⟩
  · rintro ⟨hkn, hne, rfl⟩
    exact ⟨k, hkn, _, hk, rd, rn, imm, rfl, hne, rfl⟩

/-- The sum of an ADD whose value comes from an ADRP is compared as what the processor then
holds in the target register. -/
def TracksCore (mem : Arm64.Memory) (functionStart : Address) (is : List AddressInstr)
    (core : Core) (protocolGuid : BitVec 128) : Prop :=
  ∀ k rd rn imm, is[k]? = some (.add rd rn imm) → rd.toNat ∈ derived (is.take (k + 1)) →
    ∀ n v, .compare (word functionStart k) rd.toNat v ∈
      (parseHobFunction mem n functionStart protocolGuid).log →
      v = (execAll functionStart (is.take (k + 1)) core).readSp rd.toNat

/-- Where the sum is right, the source of the ADD holds the own address of its target. -/
theorem TracksCore.readSp_source {core : Core}
    (h : TracksCore mem functionStart is core protocolGuid)
    (hcode : HoldsFunction mem functionStart is) {k : ℕ} {rd rn : BitVec 5} {imm : BitVec 12}
    (hk : is[k]? = some (.add rd rn imm)) (hrn : rn.toNat ∈ derived (is.take k))
    (hown : ownAddresses functionStart (is.take k) (fun _ => 0) rd.toNat ≠ 0) :
    (execAll functionStart (is.take k) core).readSp rn.toNat =
      ownAddresses functionStart (is.take k) (fun _ => 0) rd.toNat := by
  have hrd : rd.toNat ∈ derived (is.take (k + 1)) := by
    rwa [derived_take_succ hk, mem_derives_add]
  have hsum := h k rd rn imm hk hrd (k + 1) _
    ((compare_mem_iff hcode hk _).mpr ⟨Nat.lt_succ_self k, hown, rfl⟩)
  rw [execAll_take_succ hk, readSp_exec_add] at hsum
  exact ((BitVec.add_left_inj _).mp hsum).symm

def functionMemory (functionStart : Address) (is : List AddressInstr) : Arm64.Memory :=
  .ofWords functionStart (is.map encode ++ [0xD65F03C0])

theorem holdsFunction_functionMemory (functionStart : Address) (h : is.length < 2 ^ 62) :
    HoldsFunction (functionMemory functionStart is) functionStart is := by
  have hlength : (is.map encode ++ [0xD65F03C0]).length = is.length + 1 := by
    rw [List.length_append, List.length_map, List.length_singleton]
  constructor
  · intro k i hi
    obtain ⟨hk, rfl⟩ := List.getElem?_eq_some_iff.mp hi
    have hmap : k < (is.map encode).length := by rwa [List.length_map]
    rw [functionMemory, Memory.read32_ofWords (by omega) (by omega),
      List.getElem_append_left hmap, List.getElem_map]
  · rw [functionMemory, Memory.read32_ofWords (by omega) (by omega),
      List.getElem_append_right (by rw [List.length_map]), List.getElem_singleton]

/-- Two registers get pages, and the first one then gets the sum of the second. -/
def otherRegister : List AddressInstr := [.adrp 0 1, .adrp 1 2, .add 0 1 8]

def zeroCore : Core := ⟨fun _ => 0, 0, ⟨false, false, false, false⟩, fun _ => 0⟩

/-- The sum is compared as 0x2008 where the register holds 0x3008. -/
theorem otherRegister_not_tracksCore :
    ¬∀ (mem : Arm64.Memory) (functionStart : Address) (is : List AddressInstr) (core : Core)
      (protocolGuid : BitVec 128), HoldsFunction mem functionStart is →
      TracksCore mem functionStart is core protocolGuid := by
  intro h
  have hcode : HoldsFunction (functionMemory 0x1000 otherRegister) 0x1000 otherRegister :=
    holdsFunction_functionMemory 0x1000 (by decide)
  have hcompare : .compare (word 0x1000 2) 0 0x2008 ∈
      (parseHobFunction (functionMemory 0x1000 otherRegister) 3 0x1000 0).log :=
    (compare_mem_iff hcode (show otherRegister[2]? = some (.add 0 1 8) from rfl) 0x2008).mpr
      ⟨by decide, by decide, by decide⟩
  have hcore := h _ 0x1000 otherRegister zeroCore 0 hcode 2 0 1 8 rfl (by decide) 3 0x2008
    hcompare
  exact absurd hcore (by decide)

end ProjectMu
