import Mathlib.Tactic

/-!
# The registers of the SMMU

Every register access is a read or a write of one 32-bit word at an address that is
computed from the base address and the page layout of the device. `address_injective`
shows that the registers in use have different addresses, so that a write changes the
register it names and no other. The memory is plain except for the fault status
registers, where a one that is written clears its bit.
-/

namespace ProjectMu

abbrev Memory := BitVec 64 → BitVec 32

/-- What `ArmSmmuDetach` reads from ID1 about the layout of a device. -/
structure ArmSmmuV2Device where
  baseAddress : BitVec 64
  pageShift : ℕ
  numContextBanks : BitVec 32
  numPage : BitVec 32
  pageShift_eq : pageShift = 12 ∨ pageShift = 16
  numContextBanks_le : numContextBanks.toNat ≤ 255
  two_le_numPage : 2 ≤ numPage.toNat
  numPage_le : numPage.toNat ≤ 256

def armSmmuGr0Id0 : BitVec 64 := 0x20
def armSmmuGr0Id1 : BitVec 64 := 0x24
def armSmmuGr0Smr (n : BitVec 32) : BitVec 64 := (0x800 + n <<< 2).zeroExtend 64
def armSmmuGr0S2cr (n : BitVec 32) : BitVec 64 := (0xC00 + n <<< 2).zeroExtend 64
def armSmmuGr1Cbar (n : BitVec 32) : BitVec 64 := (n <<< 2).zeroExtend 64
def armSmmuCbTtbr0 : BitVec 64 := 0x20
def armSmmuCbTtbr1 : BitVec 64 := 0x28
def armSmmuCbTcr : BitVec 64 := 0x30
def armSmmuCbFsr : BitVec 64 := 0x58

section Access

variable (smmu : ArmSmmuV2Device)

def gr0Address (offset : BitVec 64) : BitVec 64 :=
  smmu.baseAddress + (0 : BitVec 64) <<< smmu.pageShift + offset

def gr1Address (offset : BitVec 64) : BitVec 64 :=
  smmu.baseAddress + (1 : BitVec 64) <<< smmu.pageShift + offset

def cbAddress (bank : BitVec 32) (offset : BitVec 64) : BitVec 64 :=
  smmu.baseAddress + ((smmu.numPage + bank) <<< smmu.pageShift).zeroExtend 64 + offset

/-- The indices `0 .. n - 1`, in the order of a loop over them. -/
def indices (n : BitVec 32) : List (BitVec 32) := (List.range n.toNat).map (BitVec.ofNat 32)

def IsFsr (address : BitVec 64) : Prop :=
  ∃ bank ∈ indices smmu.numContextBanks, address = cbAddress smmu bank armSmmuCbFsr

instance (address : BitVec 64) : Decidable (IsFsr smmu address) :=
  inferInstanceAs (Decidable (∃ _ ∈ _, _))

def mmioRead32 (address : BitVec 64) (memory : Memory) : BitVec 32 := memory address

def mmioWrite32 (address : BitVec 64) (value : BitVec 32) (memory : Memory) : Memory :=
  Function.update memory address
    (if IsFsr smmu address then memory address &&& ~~~value else value)

def armSmmuGr0Read (offset : BitVec 64) (memory : Memory) : BitVec 32 :=
  mmioRead32 (gr0Address smmu offset) memory

def armSmmuGr0Write (offset : BitVec 64) (value : BitVec 32) (memory : Memory) : Memory :=
  mmioWrite32 smmu (gr0Address smmu offset) value memory

def armSmmuGr1Read (offset : BitVec 64) (memory : Memory) : BitVec 32 :=
  mmioRead32 (gr1Address smmu offset) memory

def armSmmuGr1Write (offset : BitVec 64) (value : BitVec 32) (memory : Memory) : Memory :=
  mmioWrite32 smmu (gr1Address smmu offset) value memory

def armSmmuCbRead (bank : BitVec 32) (offset : BitVec 64) (memory : Memory) : BitVec 32 :=
  mmioRead32 (cbAddress smmu bank offset) memory

def armSmmuCbWrite (bank : BitVec 32) (offset : BitVec 64) (value : BitVec 32)
    (memory : Memory) : Memory :=
  mmioWrite32 smmu (cbAddress smmu bank offset) value memory

def armSmmuCbWrite64 (bank : BitVec 32) (offset value : BitVec 64) (memory : Memory) : Memory :=
  armSmmuCbWrite smmu bank (offset + 4) ((value >>> 32).truncate 32)
    (armSmmuCbWrite smmu bank offset (value.truncate 32) memory)

end Access

/-- The words of one context bank page that are in use. -/
inductive CbWord
  | ttbr0Low
  | ttbr0High
  | ttbr1Low
  | ttbr1High
  | tcr
  | fsr
  deriving DecidableEq, Repr

def CbWord.offset : CbWord → BitVec 64
  | .ttbr0Low => armSmmuCbTtbr0
  | .ttbr0High => armSmmuCbTtbr0 + 4
  | .ttbr1Low => armSmmuCbTtbr1
  | .ttbr1High => armSmmuCbTtbr1 + 4
  | .tcr => armSmmuCbTcr
  | .fsr => armSmmuCbFsr

/-- The registers in use, by name. -/
inductive Register
  | id0
  | smr (n : BitVec 32)
  | s2cr (n : BitVec 32)
  | cbar (n : BitVec 32)
  | cb (bank : BitVec 32) (word : CbWord)
  deriving DecidableEq, Repr

namespace Register

variable (smmu : ArmSmmuV2Device)

def address : Register → BitVec 64
  | id0 => gr0Address smmu armSmmuGr0Id0
  | smr n => gr0Address smmu (armSmmuGr0Smr n)
  | s2cr n => gr0Address smmu (armSmmuGr0S2cr n)
  | cbar n => gr1Address smmu (armSmmuGr1Cbar n)
  | cb bank word => cbAddress smmu bank word.offset

/-- The indices of a device have eight bits. -/
def Valid : Register → Prop
  | id0 => True
  | smr n => n.toNat ≤ 255
  | s2cr n => n.toNat ≤ 255
  | cbar n => n.toNat ≤ 255
  | cb bank _ => bank.toNat ≤ 255

def page : Register → ℕ
  | id0 => 0
  | smr _ => 0
  | s2cr _ => 0
  | cbar _ => 1
  | cb bank _ => smmu.numPage.toNat + bank.toNat

/-- The offset of a register in its page. -/
def inPage : Register → ℕ
  | id0 => 0x20
  | smr n => 0x800 + 4 * n.toNat
  | s2cr n => 0xC00 + 4 * n.toNat
  | cbar n => 4 * n.toNat
  | cb _ word => word.offset.toNat

/-- The distance of a register from the base address. -/
def place (r : Register) : ℕ := r.page smmu * 2 ^ smmu.pageShift + r.inPage

variable {smmu} {r r' : Register}

theorem toNat_index {n : BitVec 32} (h : n.toNat ≤ 255) {c : ℕ} (hc : c ≤ 0xC00) :
    ((BitVec.ofNat 32 c + n <<< 2).zeroExtend 64).toNat = c + 4 * n.toNat := by
  simp only [BitVec.truncate_eq_setWidth, BitVec.toNat_setWidth, BitVec.toNat_add,
    BitVec.toNat_ofNat, BitVec.toNat_shiftLeft, Nat.shiftLeft_eq]
  omega

theorem toNat_page {bank : BitVec 32} (h : bank.toNat ≤ 255) :
    (((smmu.numPage + bank) <<< smmu.pageShift).zeroExtend 64).toNat =
      (smmu.numPage.toNat + bank.toNat) * 2 ^ smmu.pageShift := by
  have hle := smmu.numPage_le
  have hsum : (smmu.numPage + bank).toNat = smmu.numPage.toNat + bank.toNat := by
    rw [BitVec.toNat_add]
    omega
  simp only [BitVec.truncate_eq_setWidth, BitVec.toNat_setWidth, BitVec.toNat_shiftLeft,
    Nat.shiftLeft_eq, hsum]
  rcases smmu.pageShift_eq with hs | hs <;> rw [hs] <;> omega

theorem toNat_offset_lt (word : CbWord) : word.offset.toNat < 0x60 := by
  cases word <;> decide

theorem offset_injective {word word' : CbWord} (h : word.offset.toNat = word'.offset.toNat) :
    word = word' := by
  cases word <;> cases word' <;> first | rfl | exact absurd h (by decide)

theorem inPage_lt (h : r.Valid) : r.inPage < 4096 := by
  cases r with
  | id0 => decide
  | cb bank word => exact (toNat_offset_lt word).trans (by norm_num)
  | smr n | s2cr n | cbar n =>
    have hn : n.toNat ≤ 255 := h
    simp only [inPage]
    omega

theorem page_le (h : r.Valid) : r.page smmu ≤ 511 := by
  have hnum := smmu.numPage_le
  cases r with
  | cb bank word =>
    have hbank : bank.toNat ≤ 255 := h
    simp only [page]
    omega
  | id0 | smr n | s2cr n => exact Nat.zero_le _
  | cbar n => exact Nat.le_of_ble_eq_true rfl

theorem pow_pageShift : 2 ^ smmu.pageShift = 4096 ∨ 2 ^ smmu.pageShift = 65536 := by
  rcases smmu.pageShift_eq with hs | hs <;> rw [hs]
  · exact Or.inl rfl
  · exact Or.inr rfl

theorem place_lt (h : r.Valid) : r.place smmu < 2 ^ 64 := by
  have hin := inPage_lt h
  have hpage := @page_le smmu r h
  have hmul : r.page smmu * 2 ^ smmu.pageShift ≤ 511 * 65536 :=
    Nat.mul_le_mul hpage (by rcases @pow_pageShift smmu with hp | hp <;> omega)
  unfold place
  omega

/-- A register is where its place says, whatever the base address. -/
theorem address_eq (h : r.Valid) :
    r.address smmu = smmu.baseAddress + BitVec.ofNat 64 (r.place smmu) := by
  have hof {x : BitVec 64} {n : ℕ} (hx : x.toNat = n) : x = BitVec.ofNat 64 n := by
    rw [← hx, BitVec.ofNat_toNat, BitVec.setWidth_eq]
  have hgr0 : (0 : BitVec 64) <<< smmu.pageShift = BitVec.ofNat 64 (0 * 2 ^ smmu.pageShift) := by
    rw [Nat.zero_mul]
    exact BitVec.zero_shiftLeft _
  have hgr1 : (1 : BitVec 64) <<< smmu.pageShift = BitVec.ofNat 64 (1 * 2 ^ smmu.pageShift) := by
    apply hof
    rcases smmu.pageShift_eq with hs | hs <;> rw [hs] <;> rfl
  unfold place
  rw [BitVec.ofNat_add, ← BitVec.add_assoc]
  cases r with
  | id0 => rw [address, gr0Address, hgr0]; rfl
  | smr n =>
    have hindex : (armSmmuGr0Smr n).toNat = 0x800 + 4 * n.toNat := toNat_index h (by norm_num)
    rw [address, gr0Address, hgr0, hof hindex]
    rfl
  | s2cr n =>
    have hindex : (armSmmuGr0S2cr n).toNat = 0xC00 + 4 * n.toNat := toNat_index h (by norm_num)
    rw [address, gr0Address, hgr0, hof hindex]
    rfl
  | cbar n =>
    have hindex := toNat_index (n := n) h (Nat.zero_le 0xC00)
    rw [Nat.zero_add, BitVec.zero_add] at hindex
    rw [address, gr1Address, hgr1, armSmmuGr1Cbar, hof hindex]
    rfl
  | cb bank word =>
    rw [address, cbAddress, hof (toNat_page h), hof (x := word.offset) rfl]
    rfl

theorem eq_of_page_of_inPage (hr : r.Valid) (hr' : r'.Valid) (hpage : r.page smmu = r'.page smmu)
    (hin : r.inPage = r'.inPage) : r = r' := by
  have hnum := smmu.two_le_numPage
  have hindex {m n : BitVec 32} (hmn : m.toNat = n.toNat) : m = n := BitVec.eq_of_toNat_eq hmn
  cases r <;> cases r' <;> simp only [page, inPage, Valid] at hpage hin hr hr'
  all_goals first
    | rfl
    | omega
    | exact congrArg _ (hindex (by omega))
    | exact congrArg₂ _ (hindex (by omega)) (offset_injective hin)

/-- Different registers in use have different addresses. -/
theorem address_injective (hr : r.Valid) (hr' : r'.Valid) (h : r.address smmu = r'.address smmu) :
    r = r' := by
  rw [address_eq hr, address_eq hr'] at h
  have hplace : r.place smmu = r'.place smmu := by
    have hnat := congrArg BitVec.toNat ((BitVec.add_right_inj _).mp h)
    rwa [BitVec.toNat_ofNat, BitVec.toNat_ofNat, Nat.mod_eq_of_lt (place_lt hr),
      Nat.mod_eq_of_lt (place_lt hr')] at hnat
  have hin := inPage_lt hr
  have hin' := inPage_lt hr'
  unfold place at hplace
  have hpage : r.page smmu = r'.page smmu := by
    rcases @pow_pageShift smmu with hp | hp <;> rw [hp] at hplace <;> omega
  refine eq_of_page_of_inPage hr hr' hpage ?_
  rw [hpage] at hplace
  omega

end Register

theorem mem_indices {n i : BitVec 32} : i ∈ indices n ↔ i.toNat < n.toNat := by
  unfold indices
  rw [List.mem_map]
  constructor
  · rintro ⟨k, hk, rfl⟩
    have hlt := List.mem_range.mp hk
    have hn := n.isLt
    rw [BitVec.toNat_ofNat]
    omega
  · intro hi
    exact ⟨i.toNat, List.mem_range.mpr hi, by rw [BitVec.ofNat_toNat, BitVec.setWidth_eq]⟩

theorem nodup_indices (n : BitVec 32) : (indices n).Nodup := by
  refine List.Nodup.map_on ?_ List.nodup_range
  intro i hi j hj h
  have hn := n.isLt
  have hi := List.mem_range.mp hi
  have hj := List.mem_range.mp hj
  have hnat := congrArg BitVec.toNat h
  rwa [BitVec.toNat_ofNat, BitVec.toNat_ofNat, Nat.mod_eq_of_lt (by omega),
    Nat.mod_eq_of_lt (by omega)] at hnat

section Frame

variable {smmu : ArmSmmuV2Device} {r r' : Register}

/-- The value of a register in the memory. -/
def registerAt (smmu : ArmSmmuV2Device) (memory : Memory) (r : Register) : BitVec 32 :=
  memory (r.address smmu)

@[simp] theorem valid_smr {n : BitVec 32} : (Register.smr n).Valid ↔ n.toNat ≤ 255 := Iff.rfl

@[simp] theorem valid_s2cr {n : BitVec 32} : (Register.s2cr n).Valid ↔ n.toNat ≤ 255 := Iff.rfl

@[simp] theorem valid_cbar {n : BitVec 32} : (Register.cbar n).Valid ↔ n.toNat ≤ 255 := Iff.rfl

@[simp] theorem valid_cb {bank : BitVec 32} {word : CbWord} :
    (Register.cb bank word).Valid ↔ bank.toNat ≤ 255 := Iff.rfl

/-- The fault status registers of the banks the device has. -/
def Register.HoldsFaults (smmu : ArmSmmuV2Device) (r : Register) : Prop :=
  ∃ bank, bank.toNat < smmu.numContextBanks.toNat ∧ r = .cb bank .fsr

theorem isFsr_address_iff (hr : r.Valid) :
    IsFsr smmu (r.address smmu) ↔ r.HoldsFaults smmu := by
  have hnum := smmu.numContextBanks_le
  constructor
  · rintro ⟨bank, hbank, h⟩
    have hlt := mem_indices.mp hbank
    have hvalid : (Register.cb bank .fsr).Valid := by
      change bank.toNat ≤ 255
      omega
    exact ⟨bank, hlt, Register.address_injective hr hvalid h⟩
  · rintro ⟨bank, hlt, rfl⟩
    exact ⟨bank, mem_indices.mpr hlt, rfl⟩

@[simp] theorem holdsFaults_cb {bank : BitVec 32} {word : CbWord} :
    (Register.cb bank word).HoldsFaults smmu ↔
      bank.toNat < smmu.numContextBanks.toNat ∧ word = .fsr := by
  unfold Register.HoldsFaults
  constructor
  · rintro ⟨bank', hlt, he⟩
    cases he
    exact ⟨hlt, rfl⟩
  · rintro ⟨hlt, rfl⟩
    exact ⟨bank, hlt, rfl⟩

theorem not_holdsFaults_of_ne (h : ∀ bank word, r ≠ .cb bank word) : ¬ r.HoldsFaults smmu := by
  rintro ⟨bank, -, rfl⟩
  exact h bank .fsr rfl

theorem registerAt_mmioWrite32_of_ne (hr : r.Valid) (hr' : r'.Valid) (h : r' ≠ r)
    (value : BitVec 32) (memory : Memory) :
    registerAt smmu (mmioWrite32 smmu (r.address smmu) value memory) r' =
      registerAt smmu memory r' := by
  unfold registerAt mmioWrite32
  rw [Function.update_of_ne]
  exact fun he => h (Register.address_injective hr' hr he)

theorem registerAt_mmioWrite32_self (hr : r.Valid) (h : ¬ r.HoldsFaults smmu) (value : BitVec 32)
    (memory : Memory) :
    registerAt smmu (mmioWrite32 smmu (r.address smmu) value memory) r = value := by
  unfold registerAt mmioWrite32
  rw [Function.update_self, if_neg (fun hfsr => h ((isFsr_address_iff hr).mp hfsr))]

/-- The ones written to a fault status register clear their bits. -/
theorem registerAt_mmioWrite32_fsr (hr : r.Valid) (h : r.HoldsFaults smmu) (value : BitVec 32)
    (memory : Memory) :
    registerAt smmu (mmioWrite32 smmu (r.address smmu) value memory) r =
      registerAt smmu memory r &&& ~~~value := by
  unfold registerAt mmioWrite32
  rw [Function.update_self, if_pos ((isFsr_address_iff hr).mpr h)]

end Frame

end ProjectMu
