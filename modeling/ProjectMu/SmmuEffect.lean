import ProjectMu.BoundedTable
import ProjectMu.SmmuDetach

/-!
# What a detach does to the SMMU

A stream group is the pair of its SMR and its S2CR, and a context bank is the registers of
its page with its CBAR. `groupAt_armSmmuDetachAll` and `bankAt_armSmmuDetachAll` show that
the two loops over the memory act on every group and on every bank by itself: each group
is detached or kept, and each bank that is not tracked is freed.
-/

namespace ProjectMu

open BoundedTable

structure StreamGroup where
  smr : BitVec 32
  s2cr : BitVec 32
  deriving DecidableEq, Repr

structure ContextBank where
  cbar : BitVec 32
  ttbr0 : BitVec 64
  ttbr1 : BitVec 64
  tcr : BitVec 32
  fsr : BitVec 32
  deriving DecidableEq, Repr

def groupAt (smmu : ArmSmmuV2Device) (memory : Memory) (i : BitVec 32) : StreamGroup :=
  ⟨registerAt smmu memory (.smr i), registerAt smmu memory (.s2cr i)⟩

def bankAt (smmu : ArmSmmuV2Device) (memory : Memory) (bank : BitVec 32) : ContextBank where
  cbar := registerAt smmu memory (.cbar bank)
  ttbr0 :=
    registerAt smmu memory (.cb bank .ttbr0High) ++ registerAt smmu memory (.cb bank .ttbr0Low)
  ttbr1 :=
    registerAt smmu memory (.cb bank .ttbr1High) ++ registerAt smmu memory (.cb bank .ttbr1Low)
  tcr := registerAt smmu memory (.cb bank .tcr)
  fsr := registerAt smmu memory (.cb bank .fsr)

namespace StreamGroup

variable (skipStreams : Option (List (BitVec 16))) (group : StreamGroup)

def bank : BitVec 32 := (group.s2cr >>> s2crCbndxShift) &&& s2crCbndxMask

def valid : Bool := group.smr &&& smrValid ≠ 0

def skipped : Bool :=
  let smrMask := (group.smr >>> smrMaskShift) &&& smrIdMask
  armSmmuSkipStream smrMask (((group.smr >>> smrIdShift) &&& smrIdMask) &&& ~~~smrMask) skipStreams

def kept : Bool := group.valid && group.skipped skipStreams

/-- The group after a detach. -/
def detach : StreamGroup :=
  if group.valid && !group.skipped skipStreams then
    ⟨group.smr &&& ~~~smrValid, ((s2crTypeFault &&& s2crTypeMask) <<< s2crTypeShift) |||
      ((group.bank &&& s2crCbndxMask) <<< s2crCbndxShift)⟩
  else group

end StreamGroup

namespace ContextBank

variable (bank : ContextBank)

/-- The translation types a bank may keep. -/
def Accepted : Prop :=
  let cbarType := (bank.cbar >>> cbarTypeShift) &&& cbarTypeMask
  let cbarVmid := (bank.cbar >>> cbarVmidShift) &&& cbarVmidMask
  ¬ (cbarType ≠ cbarTypeS2Trans ∧ cbarType ≠ cbarTypeS1TransS2Fault ∧
    (cbarType ≠ cbarTypeS1TransS2Bypass ∨ cbarVmid ≠ 0xFF))

instance : Decidable bank.Accepted := inferInstanceAs (Decidable (¬ _))

def bypassCbar : BitVec 32 :=
  ((cbarTypeS1TransS2Bypass &&& cbarTypeMask) <<< cbarTypeShift) |||
    ((0xFF &&& cbarVmidMask) <<< cbarVmidShift)

/-- The bank after it is freed. -/
def free : ContextBank where
  cbar := if bank.Accepted then bank.cbar else bypassCbar
  ttbr0 := 0
  ttbr1 := 0
  tcr := 0
  fsr := 0

end ContextBank

section Group

variable {smmu : ArmSmmuV2Device} {skipStreams : Option (List (BitVec 16))}

theorem trackContextBank_eq (contextBank : List (BitVec 32)) (index : BitVec 32) :
    trackContextBank contextBank index = track 16 contextBank index := by
  have hany : contextBank.any (· == index) = true ↔ index ∈ contextBank := by simp
  unfold trackContextBank track
  by_cases hmem : index ∈ contextBank
  · simp [hany.mpr hmem, hmem]
  · have hfalse : contextBank.any (· == index) = false := by
      rw [← Bool.not_eq_true, hany]
      exact hmem
    by_cases hlen : contextBank.length < 16
    · simp [hfalse, hmem, hlen, not_le.mpr hlen]
    · simp [hfalse, hmem, hlen, not_lt.mp hlen]

/-- The memory after one iteration of the first loop. -/
def detachGroupAt (smmu : ArmSmmuV2Device) (skipStreams : Option (List (BitVec 16)))
    (memory : Memory) (i : BitVec 32) : Memory :=
  let group := groupAt smmu memory i
  if group.valid && !group.skipped skipStreams then
    mmioWrite32 smmu ((Register.smr i).address smmu) (group.detach skipStreams).smr
      (mmioWrite32 smmu ((Register.s2cr i).address smmu) (group.detach skipStreams).s2cr memory)
  else memory

/-- The tracked banks after one iteration of the first loop. -/
def trackGroup (skipStreams : Option (List (BitVec 16))) (contextBank : List (BitVec 32))
    (group : StreamGroup) : List (BitVec 32) :=
  if group.kept skipStreams then track 16 contextBank group.bank else contextBank

theorem StreamGroup.valid_iff (group : StreamGroup) :
    group.valid = true ↔ ¬ group.smr &&& smrValid = 0 := by
  unfold StreamGroup.valid
  rw [decide_eq_true_iff]

theorem StreamGroup.detach_of_kept_false {group : StreamGroup} (hvalid : group.valid = true)
    (hskip : group.skipped skipStreams = false) : group.detach skipStreams =
      ⟨group.smr &&& ~~~smrValid, ((s2crTypeFault &&& s2crTypeMask) <<< s2crTypeShift) |||
        ((group.bank &&& s2crCbndxMask) <<< s2crCbndxShift)⟩ := by
  unfold StreamGroup.detach
  rw [hvalid, hskip]
  rfl

theorem detachStreamGroup_eq (state : Memory × List (BitVec 32)) (i : BitVec 32) :
    detachStreamGroup smmu skipStreams state i = (detachGroupAt smmu skipStreams state.1 i,
      trackGroup skipStreams state.2 (groupAt smmu state.1 i)) := by
  obtain ⟨memory, contextBank⟩ := state
  let group := groupAt smmu memory i
  have hvalid := group.valid_iff
  change (if group.smr &&& smrValid = 0 then (memory, contextBank) else
    if group.skipped skipStreams then (memory, trackContextBank contextBank group.bank) else _) =
      (if group.valid && !group.skipped skipStreams then _ else memory,
        if group.valid && group.skipped skipStreams then track 16 contextBank group.bank
          else contextBank)
  by_cases hzero : group.smr &&& smrValid = 0
  · have hfalse : group.valid = false := by
      rw [← Bool.not_eq_true, hvalid, not_not]
      exact hzero
    rw [if_pos hzero, hfalse]
    rfl
  · have htrue := hvalid.mpr hzero
    rw [if_neg hzero, htrue]
    cases hskip : group.skipped skipStreams with
    | true =>
      rw [trackContextBank_eq]
      rfl
    | false =>
      have hdetach := StreamGroup.detach_of_kept_false htrue hskip
      change _ = (mmioWrite32 smmu _ (group.detach skipStreams).smr (mmioWrite32 smmu _
        (group.detach skipStreams).s2cr memory), contextBank)
      rw [hdetach]
      rfl

/-- One iteration of the first loop writes the two registers of its group. -/
theorem registerAt_detachGroupAt {i : BitVec 32} (hi : i.toNat ≤ 255) {r : Register}
    (hr : r.Valid) (hsmr : r ≠ .smr i) (hs2cr : r ≠ .s2cr i) (memory : Memory) :
    registerAt smmu (detachGroupAt smmu skipStreams memory i) r = registerAt smmu memory r := by
  unfold detachGroupAt
  dsimp only
  split_ifs
  · rw [registerAt_mmioWrite32_of_ne (valid_smr.mpr hi) hr hsmr,
      registerAt_mmioWrite32_of_ne (valid_s2cr.mpr hi) hr hs2cr]
  · rfl

theorem groupAt_detachGroupAt {i : BitVec 32} (hi : i.toNat ≤ 255) (memory : Memory) :
    groupAt smmu (detachGroupAt smmu skipStreams memory i) i =
      (groupAt smmu memory i).detach skipStreams := by
  have hsmr : ¬ (Register.smr i).HoldsFaults smmu := not_holdsFaults_of_ne (fun _ _ => nofun)
  have hs2cr : ¬ (Register.s2cr i).HoldsFaults smmu := not_holdsFaults_of_ne (fun _ _ => nofun)
  have hvalid := valid_smr.mpr hi
  have hvalid' := valid_s2cr.mpr hi
  unfold detachGroupAt
  by_cases hdetach : (groupAt smmu memory i).valid && !(groupAt smmu memory i).skipped skipStreams
  · rw [if_pos hdetach]
    unfold groupAt
    rw [registerAt_mmioWrite32_self hvalid hsmr,
      registerAt_mmioWrite32_of_ne hvalid hvalid' (by simp), registerAt_mmioWrite32_self hvalid' hs2cr]
  · rw [if_neg hdetach]
    unfold StreamGroup.detach
    rw [if_neg hdetach]

theorem local_detachGroupAt : Local (groupAt smmu) (detachGroupAt smmu skipStreams)
    (fun _ => StreamGroup.detach skipStreams) {i | i.toNat ≤ 255} := by
  intro memory i hi j hj
  split_ifs with hji
  · rw [hji]
    exact groupAt_detachGroupAt hi memory
  · have hvalid : (Register.smr j).Valid ∧ (Register.s2cr j).Valid := ⟨hj, hj⟩
    unfold groupAt
    rw [registerAt_detachGroupAt hi hvalid.1 (by simp [hji]) (by simp),
      registerAt_detachGroupAt hi hvalid.2 (by simp) (by simp [hji])]

end Group

section Bank

variable {smmu : ArmSmmuV2Device} {bank : BitVec 32}

/-- Zeros written to some words of a bank. -/
def clearWords (smmu : ArmSmmuV2Device) (bank : BitVec 32) (words : List CbWord)
    (memory : Memory) : Memory :=
  words.foldl (fun memory word =>
    mmioWrite32 smmu ((Register.cb bank word).address smmu) 0 memory) memory

theorem registerAt_clearWords (hbank : bank.toNat ≤ 255) {words : List CbWord}
    (hwords : CbWord.fsr ∉ words) {r : Register} (hr : r.Valid) (memory : Memory) :
    registerAt smmu (clearWords smmu bank words memory) r =
      if ∃ word ∈ words, r = .cb bank word then 0 else registerAt smmu memory r := by
  induction words generalizing memory with
  | nil => simp [clearWords]
  | cons word words ih =>
    rw [List.mem_cons, not_or] at hwords
    have hvalid : (Register.cb bank word).Valid := valid_cb.mpr hbank
    have hrest := ih hwords.2 (mmioWrite32 smmu ((Register.cb bank word).address smmu) 0 memory)
    change registerAt smmu (clearWords smmu bank words _) r = _
    rw [hrest]
    by_cases hlater : ∃ word ∈ words, r = .cb bank word
    · rw [if_pos hlater, if_pos]
      obtain ⟨word', hmem, he⟩ := hlater
      exact ⟨word', List.mem_cons_of_mem _ hmem, he⟩
    · rw [if_neg hlater]
      by_cases hr' : r = .cb bank word
      · subst hr'
        rw [if_pos ⟨word, List.mem_cons_self, rfl⟩, registerAt_mmioWrite32_self hvalid]
        rw [holdsFaults_cb]
        exact fun h => hwords.1 h.2.symm
      · rw [registerAt_mmioWrite32_of_ne hvalid hr hr', if_neg]
        rintro ⟨word', hmem, he⟩
        rcases List.mem_cons.mp hmem with rfl | hmem
        · exact hr' he
        · exact hlater ⟨word', hmem, he⟩

/-- The words that are cleared before the fault status. -/
def disabledWords : List CbWord := [.ttbr0Low, .ttbr0High, .ttbr1Low, .ttbr1High, .tcr]

theorem armSmmuDisableContextBank_eq (memory : Memory) :
    armSmmuDisableContextBank smmu bank memory =
      let memory := clearWords smmu bank disabledWords memory
      if registerAt smmu memory (.cb bank .fsr) ≠ 0 then
        mmioWrite32 smmu ((Register.cb bank .fsr).address smmu)
          (registerAt smmu memory (.cb bank .fsr)) memory
      else memory := rfl

/-- Whether a register lies in the page of a bank. -/
def Register.inBank (bank : BitVec 32) : Register → Bool
  | .cb bank' _ => bank' == bank
  | _ => false

theorem Register.inBank_iff {r : Register} : r.inBank bank = true ↔ ∃ word, r = .cb bank word := by
  cases r <;> simp [Register.inBank]

/-- Disabling a bank clears all its words and no other register. -/
theorem registerAt_armSmmuDisableContextBank
    (hbank : bank.toNat < smmu.numContextBanks.toNat) {r : Register} (hr : r.Valid)
    (memory : Memory) :
    registerAt smmu (armSmmuDisableContextBank smmu bank memory) r =
      if r.inBank bank then 0 else registerAt smmu memory r := by
  have hnum := smmu.numContextBanks_le
  have hle : bank.toNat ≤ 255 := by omega
  have hfsr : (Register.cb bank .fsr).Valid := valid_cb.mpr hle
  have hfaults : (Register.cb bank .fsr).HoldsFaults smmu := holdsFaults_cb.mpr ⟨hbank, rfl⟩
  have hclear {r : Register} (hr : r.Valid) :=
    @registerAt_clearWords smmu bank hle disabledWords (by decide) r hr memory
  rw [armSmmuDisableContextBank_eq]
  dsimp only
  by_cases hself : r = .cb bank .fsr
  · subst hself
    rw [if_pos (Register.inBank_iff.mpr ⟨_, rfl⟩)]
    split_ifs with hzero
    · rw [registerAt_mmioWrite32_fsr hfsr hfaults]
      exact BitVec.and_not_self _
    · exact not_not.mp hzero
  · have hword : (∃ word ∈ disabledWords, r = .cb bank word) ↔ r.inBank bank = true := by
      rw [Register.inBank_iff]
      constructor
      · rintro ⟨word, -, he⟩
        exact ⟨word, he⟩
      · rintro ⟨word, he⟩
        refine ⟨word, ?_, he⟩
        cases word with
        | fsr => exact absurd he hself
        | ttbr0Low | ttbr0High | ttbr1Low | ttbr1High | tcr => decide
    have hrest : registerAt smmu (clearWords smmu bank disabledWords memory) r =
        if r.inBank bank then 0 else registerAt smmu memory r := by
      rw [hclear hr]
      exact if_congr hword rfl rfl
    rw [← hrest]
    split_ifs
    · exact registerAt_mmioWrite32_of_ne hfsr hr hself _ _
    · rfl

theorem armSmmuFreeContextBank_eq (memory : Memory) :
    armSmmuFreeContextBank smmu bank memory =
      let memory := armSmmuDisableContextBank smmu bank memory
      if (bankAt smmu memory bank).Accepted then memory
      else mmioWrite32 smmu ((Register.cbar bank).address smmu) ContextBank.bypassCbar memory :=
  (ite_not _ _ _).symm

/-- Freeing a bank writes registers of that bank only. -/
theorem registerAt_armSmmuFreeContextBank (hbank : bank.toNat < smmu.numContextBanks.toNat)
    {r : Register} (hr : r.Valid) (hcbar : r ≠ .cbar bank) (memory : Memory) :
    registerAt smmu (armSmmuFreeContextBank smmu bank memory) r =
      if r.inBank bank then 0 else registerAt smmu memory r := by
  have hnum := smmu.numContextBanks_le
  have hvalid : (Register.cbar bank).Valid := valid_cbar.mpr (by omega)
  rw [← registerAt_armSmmuDisableContextBank hbank hr memory, armSmmuFreeContextBank_eq]
  dsimp only
  split_ifs
  · rfl
  · exact registerAt_mmioWrite32_of_ne hvalid hr hcbar _ _

theorem registerAt_cbar_armSmmuFreeContextBank
    (hbank : bank.toNat < smmu.numContextBanks.toNat) (memory : Memory) :
    registerAt smmu (armSmmuFreeContextBank smmu bank memory) (.cbar bank) =
      (bankAt smmu memory bank).free.cbar := by
  have hnum := smmu.numContextBanks_le
  have hvalid : (Register.cbar bank).Valid := valid_cbar.mpr (by omega)
  have hdisable : registerAt smmu (armSmmuDisableContextBank smmu bank memory) (.cbar bank) =
      registerAt smmu memory (.cbar bank) := registerAt_armSmmuDisableContextBank hbank hvalid memory
  have haccepted : (bankAt smmu (armSmmuDisableContextBank smmu bank memory) bank).Accepted ↔
      (bankAt smmu memory bank).Accepted := by
    unfold ContextBank.Accepted bankAt
    rw [hdisable]
  rw [armSmmuFreeContextBank_eq]
  unfold ContextBank.free
  dsimp only
  rw [if_congr haccepted rfl rfl]
  split_ifs
  · exact hdisable
  · exact registerAt_mmioWrite32_self hvalid (not_holdsFaults_of_ne (fun _ _ => nofun)) _ _

theorem bankAt_armSmmuFreeContextBank (hbank : bank.toNat < smmu.numContextBanks.toNat)
    (memory : Memory) :
    bankAt smmu (armSmmuFreeContextBank smmu bank memory) bank = (bankAt smmu memory bank).free := by
  have hnum := smmu.numContextBanks_le
  have hzero (word : CbWord) :
      registerAt smmu (armSmmuFreeContextBank smmu bank memory) (.cb bank word) = 0 := by
    have hvalid : (Register.cb bank word).Valid := valid_cb.mpr (by omega)
    rw [registerAt_armSmmuFreeContextBank hbank hvalid nofun, if_pos]
    exact Register.inBank_iff.mpr ⟨word, rfl⟩
  have hcbar := registerAt_cbar_armSmmuFreeContextBank hbank memory
  unfold bankAt ContextBank.free
  simp only [hzero]
  exact congrArg (fun cbar => (⟨cbar, 0, 0, 0, 0⟩ : ContextBank)) hcbar

theorem bankAt_armSmmuFreeContextBank_of_ne (hbank : bank.toNat < smmu.numContextBanks.toNat)
    {j : BitVec 32} (hj : j.toNat ≤ 255) (hne : j ≠ bank) (memory : Memory) :
    bankAt smmu (armSmmuFreeContextBank smmu bank memory) j = bankAt smmu memory j := by
  have hcb (word : CbWord) : registerAt smmu (armSmmuFreeContextBank smmu bank memory) (.cb j word) =
      registerAt smmu memory (.cb j word) := by
    have hvalid : (Register.cb j word).Valid := valid_cb.mpr hj
    have hnot : (Register.cb j word).inBank bank = false := by simp [Register.inBank, hne]
    have hfree := registerAt_armSmmuFreeContextBank hbank hvalid nofun memory
    rwa [hnot] at hfree
  have hcbar : registerAt smmu (armSmmuFreeContextBank smmu bank memory) (.cbar j) =
      registerAt smmu memory (.cbar j) :=
    registerAt_armSmmuFreeContextBank hbank (valid_cbar.mpr hj) (by simp [hne]) memory
  unfold bankAt
  simp only [hcb, hcbar]

end Bank

end ProjectMu
