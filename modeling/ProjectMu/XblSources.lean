import ProjectMu.XblTracking

/-!
# The ADDs whose sums are tracked

The address tracked for a register is moved on by an ADD into it, whichever register the ADD
reads. So a function is tracked right, for all immediates and load addresses, if and only if
each ADD of a derived address reads the register it writes, or writes one that no ADRP before it
names.
-/

namespace ProjectMu

open AccessLog Arm64 AddressInstr

variable {functionStart : Address} {protocolGuid : BitVec 128} {i : AddressInstr}
  {is : List AddressInstr} {own : ℕ → BitVec 64} {core : Core} {j k r : ℕ}

/-- An ADD that reads a derived register reads the one it writes, or no ADRP before it has its
target. Register 31 is the zero register of an ADRP and the stack pointer of an ADD, so an ADD to
it does not keep to its source. -/
def KeepsSource (is : List AddressInstr) : Prop :=
  ∀ k rd rn imm, is[k]? = some (.add rd rn imm) → rn.toNat ∈ derived (is.take k) →
    (rn = rd ∧ rd ≠ 31) ∨ ∀ j < k, ∀ imm', is[j]? ≠ some (.adrp rd imm')

theorem take_succ_of_none (h : is[k]? = none) : is.take (k + 1) = is.take k := by
  rw [List.take_add_one, h, Option.toList_none, List.append_nil]

theorem ownAddresses_take_succ (h : is[k]? = some i) :
    ownAddresses functionStart (is.take (k + 1)) own =
      ownAddress (word functionStart k) i (ownAddresses functionStart (is.take k) own) := by
  induction is generalizing functionStart own k with
  | nil => cases h
  | cons j is ih =>
    cases k with
    | zero =>
      obtain rfl : j = i := Option.some_inj.mp h
      rw [word_zero]
      rfl
    | succ k =>
      rw [List.getElem?_cons_succ] at h
      rw [List.take_succ_cons, List.take_succ_cons, ownAddresses, ownAddresses, ih h,
        word_add_four]

/-- Without an ADRP into it, a register has no address. -/
theorem ownAddresses_take_eq_zero {rd : BitVec 5}
    (h : ∀ j < k, ∀ imm, is[j]? ≠ some (.adrp rd imm)) :
    ownAddresses functionStart (is.take k) (fun _ => 0) rd.toNat = 0 := by
  induction k with
  | zero => rfl
  | succ k ih =>
    have hbefore := ih fun j hj => h j (Nat.lt_succ_of_lt hj)
    cases hk : is[k]? with
    | none => rwa [take_succ_of_none hk]
    | some i =>
      rw [ownAddresses_take_succ hk]
      cases i with
      | adrp rd' imm =>
        have hne : rd.toNat ≠ rd'.toNat := by
          intro heq
          obtain rfl := BitVec.eq_of_toNat_eq heq
          exact h k (Nat.lt_succ_self k) imm hk
        rw [ownAddress, Function.update_of_ne hne, hbefore]
      | add rd' rn imm =>
        rw [ownAddress]
        split
        case isTrue hzero => exact hbefore
        case isFalse hzero =>
          have hne : rd.toNat ≠ rd'.toNat := fun heq => hzero (heq ▸ hbefore)
          rw [Function.update_of_ne hne, hbefore]

/-- The derived registers, the stack pointer aside, hold their own addresses. -/
def OwnAddressesHeld (s : Finset ℕ) (own : ℕ → BitVec 64) (core : Core) : Prop :=
  ∀ r ∈ s, r ≠ 31 → own r ≠ 0 → core.readSp r = own r

theorem OwnAddressesHeld.adrp {s : Finset ℕ} {pc : Address} (h : OwnAddressesHeld s own core)
    (rd : BitVec 5) (imm : BitVec 21) :
    OwnAddressesHeld (derives (.adrp rd imm) s) (ownAddress pc (.adrp rd imm) own)
      (exec pc (.adrp rd imm) core) := by
  intro r hr hsp hown
  by_cases heq : r = rd.toNat
  · subst heq
    rw [readSp_exec_adrp hsp, ownAddress, Function.update_self]
  · have hmem : r ∈ s := by
      rw [derives] at hr
      split at hr
      · exact hr
      · exact Finset.mem_of_mem_insert_of_ne hr heq
    rw [ownAddress, Function.update_of_ne heq] at hown ⊢
    rw [readSp_exec_adrp_of_ne heq, h r hmem hsp hown]

/-- An ADD keeps the addresses of the other registers. -/
theorem OwnAddressesHeld.add_of_ne {s : Finset ℕ} {pc : Address} {rd rn : BitVec 5}
    {imm : BitVec 12} (h : OwnAddressesHeld s own core) (heq : r ≠ rd.toNat)
    (hr : r ∈ derives (.add rd rn imm) s) (hsp : r ≠ 31)
    (hown : ownAddress pc (.add rd rn imm) own r ≠ 0) :
    (exec pc (.add rd rn imm) core).readSp r = ownAddress pc (.add rd rn imm) own r := by
  have hsame : ownAddress pc (.add rd rn imm) own r = own r := by
    rw [ownAddress]
    split
    · rfl
    · exact Function.update_of_ne heq _ _
  have hmem : r ∈ s := by
    rw [derives] at hr
    split at hr
    · exact Finset.mem_of_mem_insert_of_ne hr heq
    · exact Finset.mem_of_mem_erase hr
  rw [hsame] at hown ⊢
  rw [readSp_exec_add_of_ne heq, h r hmem hsp hown]

/-- An ADD that keeps to its source, or whose target has no address, keeps the addresses. -/
theorem OwnAddressesHeld.add {s : Finset ℕ} {pc : Address} (h : OwnAddressesHeld s own core)
    {rd rn : BitVec 5} (imm : BitVec 12)
    (hsource : rn.toNat ∈ s → rn = rd ∨ own rd.toNat = 0) :
    OwnAddressesHeld (derives (.add rd rn imm) s) (ownAddress pc (.add rd rn imm) own)
      (exec pc (.add rd rn imm) core) := by
  intro r hr hsp hown
  by_cases heq : r = rd.toNat
  · subst heq
    have hrn : rn.toNat ∈ s := mem_derives_add.mp hr
    have hzero : own rd.toNat ≠ 0 := by
      intro hzero
      rw [ownAddress, if_pos hzero] at hown
      exact hown hzero
    obtain rfl := (hsource hrn).resolve_right hzero
    rw [ownAddress, if_neg hzero, Function.update_self, readSp_exec_add, h _ hrn hsp hzero]
  · exact h.add_of_ne heq hr hsp hown

theorem KeepsSource.ownAddressesHeld (h : KeepsSource is) (k : ℕ) :
    OwnAddressesHeld (derived (is.take k))
      (ownAddresses functionStart (is.take k) fun _ => 0)
      (execAll functionStart (is.take k) core) := by
  induction k with
  | zero => exact fun r hr => absurd hr (Finset.notMem_empty r)
  | succ k ih =>
    cases hk : is[k]? with
    | none => rwa [take_succ_of_none hk]
    | some i =>
      rw [derived_take_succ hk, ownAddresses_take_succ hk, execAll_take_succ hk]
      cases i with
      | adrp rd imm => exact ih.adrp rd imm
      | add rd rn imm =>
        refine ih.add imm fun hrn => ?_
        obtain ⟨hsame, -⟩ | hnone := h k rd rn imm hk hrn
        · exact .inl hsame
        · exact .inr (ownAddresses_take_eq_zero hnone)

theorem KeepsSource.tracksCore {mem : Arm64.Memory} (h : KeepsSource is)
    (hcode : HoldsFunction mem functionStart is) :
    TracksCore mem functionStart is core protocolGuid := by
  intro k rd rn imm hk hrd n v hv
  rw [derived_take_succ hk, mem_derives_add] at hrd
  obtain ⟨-, hown, rfl⟩ := (compare_mem_iff hcode hk v).mp hv
  obtain ⟨rfl, hsp⟩ | hnone := h k rd rn imm hk hrd
  · have hne : rn.toNat ≠ 31 := fun heq => hsp (BitVec.eq_of_toNat_eq heq)
    rw [execAll_take_succ hk, readSp_exec_add, h.ownAddressesHeld k _ hrd hne hown]
  · exact absurd (ownAddresses_take_eq_zero hnone) hown

/-- The registers of an instruction, with its immediate taken out. -/
def registers : AddressInstr → AddressInstr
  | .adrp rd _ => .adrp rd 0
  | .add rd rn _ => .add rd rn 0

def withOne : AddressInstr → AddressInstr
  | .adrp rd _ => .adrp rd 1
  | .add rd rn _ => .add rd rn 1

theorem registers_withOne (i : AddressInstr) : registers (withOne i) = registers i := by
  cases i <;> rfl

theorem registers_registers (i : AddressInstr) : registers (registers i) = registers i := by
  cases i <;> rfl

theorem derived_registers (is : List AddressInstr) :
    derived (is.map registers) = derived is := by
  have hstep (s : Finset ℕ) (i : AddressInstr) : (registers i).derives s = i.derives s := by
    cases i <;> rfl
  simp only [derived, List.foldl_map, hstep]

theorem derived_take_of_registers {is' : List AddressInstr}
    (h : is'.map registers = is.map registers) (k : ℕ) :
    derived (is'.take k) = derived (is.take k) := by
  rw [← derived_registers (is'.take k), List.map_take, h, ← List.map_take, derived_registers]

/-- The processor gets a new value for a register. -/
def Writes (r : ℕ) : AddressInstr → Prop
  | .adrp rd _ => rd.toNat = r ∧ r ≠ 31
  | .add rd _ _ => rd.toNat = r

theorem writes_registers : Writes r (registers i) ↔ Writes r i := by
  cases i <;> rfl

theorem readSp_exec_of_not_writes {pc : Address} (h : ¬Writes r i) :
    (i.exec pc core).readSp r = core.readSp r := by
  cases i with
  | adrp rd imm =>
    by_cases heq : r = rd.toNat
    · have hsp : rd.toNat = 31 := by
        by_contra hne
        exact h ⟨heq.symm, heq ▸ hne⟩
      rw [exec, Core.write, if_pos hsp]
    · exact readSp_exec_adrp_of_ne heq
  | add rd rn imm => exact readSp_exec_add_of_ne (Ne.symm h)

/-- The immediate of an instruction counts for the register it writes. -/
theorem readSp_withOne_ne (pc : Address) (h : Writes r i) :
    ((withOne i).exec pc core).readSp r ≠ ((registers i).exec pc core).readSp r := by
  cases i with
  | adrp rd imm =>
    obtain ⟨rfl, hsp⟩ := h
    rw [withOne, registers, readSp_exec_adrp hsp, readSp_exec_adrp hsp, page, page, ne_eq,
      BitVec.add_right_inj]
    decide
  | add rd rn imm =>
    obtain rfl : rd.toNat = r := h
    rw [withOne, registers, readSp_exec_add, readSp_exec_add, ne_eq, BitVec.add_right_inj]
    decide

theorem readSp_execAll_of_last (hj : is[j]? = some i) (hjk : j < k)
    (h : ∀ m, j < m → m < k → ∀ i, is[m]? = some i → ¬Writes r i) :
    (execAll functionStart (is.take k) core).readSp r =
      (i.exec (word functionStart j) (execAll functionStart (is.take j) core)).readSp r := by
  induction k, hjk using Nat.le_induction with
  | base => rw [execAll_take_succ hj]
  | succ k hjk ih =>
    have hbefore := ih fun m hm hmk => h m hm (Nat.lt_succ_of_lt hmk)
    cases hk : is[k]? with
    | none => rwa [take_succ_of_none hk]
    | some i =>
      rw [execAll_take_succ hk, readSp_exec_of_not_writes (h k hjk (Nat.lt_succ_self k) i hk),
        hbefore]

theorem exists_last {p : ℕ → Prop} (h : ∃ j < k, p j) :
    ∃ j < k, p j ∧ ∀ m, j < m → m < k → ¬p m := by
  classical
  obtain ⟨j, hj, hp⟩ := h
  have hne : ((Finset.range k).filter p).Nonempty :=
    ⟨j, Finset.mem_filter.mpr ⟨Finset.mem_range.mpr hj, hp⟩⟩
  obtain ⟨hlt, hlast⟩ := Finset.mem_filter.mp (Finset.max'_mem _ hne)
  refine ⟨_, Finset.mem_range.mp hlt, hlast, fun m hm hmk hpm => ?_⟩
  have hle := Finset.le_max' _ m (Finset.mem_filter.mpr ⟨Finset.mem_range.mpr hmk, hpm⟩)
  exact absurd hm (Nat.not_lt.mpr hle)

theorem exists_writes_of_mem_derived (h : r ∈ derived (is.take k)) :
    ∃ j < k, ∃ i, is[j]? = some i ∧ Writes r i := by
  induction k with
  | zero => exact absurd h (Finset.notMem_empty r)
  | succ k ih =>
    by_cases hbefore : r ∈ derived (is.take k)
    · obtain ⟨j, hj, hwrites⟩ := ih hbefore
      exact ⟨j, Nat.lt_succ_of_lt hj, hwrites⟩
    · cases hk : is[k]? with
      | none =>
        rw [take_succ_of_none hk] at h
        exact absurd h hbefore
      | some i =>
        refine ⟨k, Nat.lt_succ_self k, i, hk, ?_⟩
        rw [derived_take_succ hk] at h
        cases i with
        | adrp rd imm =>
          rw [derives] at h
          split at h
          case isTrue hzero => exact absurd h hbefore
          case isFalse hzero =>
            obtain rfl := (Finset.mem_insert.mp h).resolve_right hbefore
            exact ⟨rfl, hzero⟩
        | add rd rn imm =>
          rw [derives] at h
          split at h
          case isTrue hmem => exact ((Finset.mem_insert.mp h).resolve_right hbefore).symm
          case isFalse hmem => exact absurd (Finset.mem_of_mem_erase h) hbefore

/-- An instruction leaves the address of a register as it is. -/
def KeepsAddress (rd : BitVec 5) (i : AddressInstr) : Prop :=
  ∀ pc own, ownAddress pc i own rd.toNat = own rd.toNat

theorem keepsAddress_registers {rd : BitVec 5} (h : ∀ imm, i ≠ .adrp rd imm) :
    KeepsAddress rd (registers i) := by
  intro pc own
  cases i with
  | adrp rd' imm =>
    have hne : rd.toNat ≠ rd'.toNat := by
      intro heq
      obtain rfl := BitVec.eq_of_toNat_eq heq
      exact h imm rfl
    rw [registers, ownAddress, Function.update_of_ne hne]
  | add rd' rn imm =>
    rw [registers, ownAddress]
    split
    · rfl
    · by_cases heq : rd.toNat = rd'.toNat
      · rw [heq, Function.update_self]
        exact BitVec.add_zero _
      · rw [Function.update_of_ne heq]

theorem keepsAddress_withOne {rd : BitVec 5} (h : Writes r i) (hne : rd.toNat ≠ r) :
    KeepsAddress rd (withOne i) := by
  intro pc own
  cases i with
  | adrp rd' imm =>
    obtain ⟨rfl, -⟩ := h
    rw [withOne, ownAddress, Function.update_of_ne hne]
  | add rd' rn imm =>
    obtain rfl : rd'.toNat = r := h
    rw [withOne, ownAddress]
    split
    · rfl
    · rw [Function.update_of_ne hne]

theorem ownAddresses_take_of_last {rd : BitVec 5} {imm : BitVec 21}
    (hj : is[j]? = some (.adrp rd imm)) (hjk : j < k)
    (hkeep : ∀ m, j < m → m < k → ∀ i, is[m]? = some i → KeepsAddress rd i) :
    ownAddresses functionStart (is.take k) own rd.toNat = page (word functionStart j) imm := by
  induction k, hjk using Nat.le_induction with
  | base => rw [ownAddresses_take_succ hj, ownAddress, Function.update_self]
  | succ k hjk ih =>
    have hbefore := ih fun m hm hmk => hkeep m hm (Nat.lt_succ_of_lt hmk)
    cases hk : is[k]? with
    | none => rwa [take_succ_of_none hk]
    | some i =>
      rw [ownAddresses_take_succ hk, hkeep k hjk (Nat.lt_succ_self k) i hk, hbefore]

theorem execAll_set {i' : AddressInstr} (hexec : ∀ pc c, i'.exec pc c = i.exec pc c)
    (hj : is[j]? = some i) :
    execAll functionStart ((is.set j i').take k) core =
      execAll functionStart (is.take k) core := by
  induction is generalizing functionStart core j k with
  | nil => cases hj
  | cons i₀ is ih =>
    cases k with
    | zero => rfl
    | succ k =>
      cases j with
      | zero =>
        obtain rfl : i₀ = i := Option.some_inj.mp hj
        rw [List.set_cons_zero, List.take_succ_cons, List.take_succ_cons,
          AddressInstr.execAll, AddressInstr.execAll, hexec]
      | succ j => exact ih hj

theorem registers_plain (is : List AddressInstr) :
    (is.map registers).map registers = is.map registers := by
  rw [List.map_map]
  exact List.map_congr_left fun i _ => registers_registers i

theorem set_withOne_registers {d : ℕ} (hd : is[d]? = some i) :
    ((is.map registers).set d (withOne i)).map registers = is.map registers := by
  obtain ⟨hlt, rfl⟩ := List.getElem?_eq_some_iff.mp hd
  rw [List.map_set, registers_plain, registers_withOne, ← List.getElem_map registers,
    List.set_getElem_self]
  rw [List.length_map]
  exact hlt

theorem getElem?_plain {m : ℕ} (h : is[m]? = some i) :
    (is.map registers)[m]? = some (registers i) := by
  rw [List.getElem?_map, h]
  rfl

theorem exists_of_registers {is' : List AddressInstr} {m : ℕ} {i' : AddressInstr}
    (h : is'.map registers = is.map registers) (hm : is'[m]? = some i') :
    ∃ i, is[m]? = some i ∧ registers i = registers i' := by
  have hget := getElem?_plain hm
  rwa [h, List.getElem?_map, Option.map_eq_some_iff] at hget

theorem getElem?_set_withOne {d : ℕ} (hd : is[d]? = some i) :
    ((is.map registers).set d (withOne i))[d]? = some (withOne i) := by
  refine List.getElem?_set_self ?_
  rw [List.length_map]
  exact (List.getElem?_eq_some_iff.mp hd).1

theorem keepsAddress_plain {m : ℕ} {rd : BitVec 5} (h : ∀ imm, is[m]? ≠ some (.adrp rd imm))
    (hm : (is.map registers)[m]? = some i) : KeepsAddress rd i := by
  rw [List.getElem?_map, Option.map_eq_some_iff] at hm
  obtain ⟨i, hm, rfl⟩ := hm
  exact keepsAddress_registers fun imm heq => h imm (heq ▸ hm)

theorem not_writes_plain {m : ℕ} (h : ¬∃ i, is[m]? = some i ∧ Writes r i)
    (hm : (is.map registers)[m]? = some i) : ¬Writes r i := by
  rw [List.getElem?_map, Option.map_eq_some_iff] at hm
  obtain ⟨i, hm, rfl⟩ := hm
  exact fun hwrites => h ⟨i, hm, writes_registers.mp hwrites⟩

/-- Only the registers of the instructions count. -/
theorem KeepsSource.of_registers {is' : List AddressInstr} (h : KeepsSource is)
    (hregisters : is'.map registers = is.map registers) : KeepsSource is' := by
  intro k rd rn imm hk hrn
  rw [derived_take_of_registers hregisters] at hrn
  obtain ⟨i, hi, hsame⟩ := exists_of_registers hregisters hk
  cases i with
  | adrp => cases hsame
  | add rd' rn' imm' =>
    obtain ⟨rfl, rfl⟩ : rd' = rd ∧ rn' = rn := by
      injection hsame with hrd hrn
      exact ⟨hrd, hrn⟩
    refine (h k rd' rn' imm' hi hrn).imp_right fun hnone j hj imm'' hadrp => ?_
    obtain ⟨i, hi, hsame⟩ := exists_of_registers hregisters hadrp
    cases i with
    | add => cases hsame
    | adrp rd imm =>
      injection hsame with hrd
      exact hnone j hj imm (hrd ▸ hi)

/-- All functions with the registers of `is`, whatever their immediates and their place. -/
def TracksRegisters (is : List AddressInstr) : Prop :=
  ∀ mem functionStart is' core protocolGuid, is'.map registers = is.map registers →
    HoldsFunction mem functionStart is' → TracksCore mem functionStart is' core protocolGuid

/-- A function placed so that the instruction at `j` is at 0x10000. -/
def startFor (j : ℕ) : Address := 0x10000 - BitVec.ofNat 64 (4 * j)

theorem word_startFor (j : ℕ) : word (startFor j) j = 0x10000 :=
  BitVec.sub_add_cancel _ _

/-- Where all functions with these registers are tracked, the source of an ADD holds the page of
the last ADRP into its target, for all immediates. -/
theorem TracksRegisters.readSp_source (h : TracksRegisters is) {is' : List AddressInstr}
    (hregisters : is'.map registers = is.map registers) (hlength : is.length < 2 ^ 62)
    {rd rn : BitVec 5} {imm : BitVec 12} {page₀ : BitVec 21} (hk : is'[k]? = some (.add rd rn imm))
    (hrn : rn.toNat ∈ derived (is.take k)) (hjk : j < k) (hj : is'[j]? = some (.adrp rd page₀))
    (hpage : page 0x10000 page₀ ≠ 0)
    (hkeep : ∀ m, j < m → m < k → ∀ i, is'[m]? = some i → KeepsAddress rd i) :
    (execAll (startFor j) (is'.take k) zeroCore).readSp rn.toNat = page 0x10000 page₀ := by
  have hlength' : is'.length < 2 ^ 62 := by
    have hmap := congrArg List.length hregisters
    rw [List.length_map, List.length_map] at hmap
    rwa [hmap]
  have hcode := holdsFunction_functionMemory (startFor j) hlength'
  have hown : ownAddresses (startFor j) (is'.take k) (fun _ => 0) rd.toNat =
      page 0x10000 page₀ := by
    rw [ownAddresses_take_of_last hj hjk hkeep, word_startFor]
  have htracks := h _ (startFor j) is' zeroCore 0 hregisters hcode
  rw [← derived_take_of_registers hregisters] at hrn
  rw [htracks.readSp_source hcode hk hrn (by rwa [hown]), hown]

/-- An ADD of another register: the immediate of the last instruction that writes the source
counts for the source, and not for the address of the target. -/
theorem TracksRegisters.not_otherSource (h : TracksRegisters is) (hlength : is.length < 2 ^ 62)
    {rd rn : BitVec 5} {imm : BitVec 12} {imm' : BitVec 21}
    (hk : is[k]? = some (.add rd rn imm)) (hrn : rn.toNat ∈ derived (is.take k)) (hne : rn ≠ rd)
    (hjk : j < k) (hj : is[j]? = some (.adrp rd imm'))
    (hlast : ∀ m, j < m → m < k → ∀ imm', is[m]? ≠ some (.adrp rd imm')) : False := by
  obtain ⟨d, hdk, ⟨i, hd, hwrites⟩, hafter⟩ := exists_last (exists_writes_of_mem_derived hrn)
  have htarget : rd.toNat ≠ rn.toNat := fun heq => hne (BitVec.eq_of_toNat_eq heq).symm
  have hdj : d ≠ j := by
    rintro rfl
    obtain rfl := Option.some_inj.mp (hd.symm.trans hj)
    exact htarget hwrites.1
  have hsame {m : ℕ} (hm : m ≠ d) :
      ((is.map registers).set d (withOne i))[m]? = (is.map registers)[m]? :=
    List.getElem?_set_ne hm.symm
  have hkeep (m : ℕ) (hjm : j < m) (hmk : m < k) (i' : AddressInstr)
      (hm : (is.map registers)[m]? = some i') : KeepsAddress rd i' :=
    keepsAddress_plain (hlast m hjm hmk) hm
  have hkeepSet (m : ℕ) (hjm : j < m) (hmk : m < k) (i' : AddressInstr)
      (hm : ((is.map registers).set d (withOne i))[m]? = some i') : KeepsAddress rd i' := by
    by_cases hmd : m = d
    · subst hmd
      obtain rfl := Option.some_inj.mp ((getElem?_set_withOne hd).symm.trans hm)
      exact keepsAddress_withOne hwrites htarget
    · exact hkeep m hjm hmk i' ((hsame hmd).symm.trans hm)
  have hplain := h.readSp_source (registers_plain is) hlength (getElem?_plain hk) hrn hjk
    (getElem?_plain hj) (by decide) hkeep
  have hset := h.readSp_source (set_withOne_registers hd) hlength
    ((hsame hdk.ne').trans (getElem?_plain hk)) hrn hjk
    ((hsame hdj.symm).trans (getElem?_plain hj)) (by decide) hkeepSet
  rw [readSp_execAll_of_last (getElem?_plain hd) hdk fun m hdm hmk i' hm =>
    not_writes_plain (hafter m hdm hmk) hm] at hplain
  rw [readSp_execAll_of_last (getElem?_set_withOne hd) hdk fun m hdm hmk i' hm =>
    not_writes_plain (hafter m hdm hmk) ((hsame hdm.ne').symm.trans hm),
    List.take_set_of_le le_rfl] at hset
  exact readSp_withOne_ne _ hwrites (hset.trans hplain.symm)

/-- An ADD to the stack pointer: the immediate of an ADRP into register 31 counts for the
address of this register, and for nothing that the processor does. -/
theorem TracksRegisters.not_stackPointer (h : TracksRegisters is) (hlength : is.length < 2 ^ 62)
    {imm : BitVec 12} {imm' : BitVec 21} (hk : is[k]? = some (.add 31 31 imm))
    (hrn : 31 ∈ derived (is.take k)) (hjk : j < k) (hj : is[j]? = some (.adrp 31 imm'))
    (hlast : ∀ m, j < m → m < k → ∀ imm', is[m]? ≠ some (.adrp 31 imm')) : False := by
  have hsame {m : ℕ} (hm : m ≠ j) :
      ((is.map registers).set j (withOne (.adrp 31 imm')))[m]? = (is.map registers)[m]? :=
    List.getElem?_set_ne hm.symm
  have hkeep (m : ℕ) (hjm : j < m) (hmk : m < k) (i' : AddressInstr)
      (hm : (is.map registers)[m]? = some i') : KeepsAddress 31 i' :=
    keepsAddress_plain (hlast m hjm hmk) hm
  have hplain := h.readSp_source (registers_plain is) hlength (getElem?_plain hk) hrn hjk
    (getElem?_plain hj) (by decide) hkeep
  have hset := h.readSp_source (set_withOne_registers hj) hlength
    ((hsame hjk.ne').trans (getElem?_plain hk)) hrn hjk (getElem?_set_withOne hj) (by decide)
    fun m hjm hmk i' hm => hkeep m hjm hmk i' ((hsame hjm.ne').symm.trans hm)
  have hexec (pc : Address) (c : Core) : exec pc (withOne (.adrp 31 imm')) c =
      exec pc (registers (.adrp 31 imm')) c := by
    rw [withOne, registers, exec, exec, Core.write, Core.write, if_pos (by decide),
      if_pos (by decide)]
  rw [execAll_set hexec (getElem?_plain hj), hplain] at hset
  exact absurd hset (by decide)

/-- A function that keeps to its sources is tracked right, and for some registers the sums of all
functions with them are right if and only if these registers keep to their sources. -/
theorem tracksRegisters_iff (mem : Arm64.Memory) (functionStart : Address)
    (is : List AddressInstr) (hcode : HoldsFunction mem functionStart is) :
    (KeepsSource is → ∀ core protocolGuid,
        TracksCore mem functionStart is core protocolGuid) ∧
      (TracksRegisters is ↔ KeepsSource is) := by
  refine ⟨fun h core protocolGuid => h.tracksCore hcode, ?_⟩
  constructor
  · intro h k rd rn imm hk hrn
    by_contra hviolated
    obtain ⟨hsource, hadrp⟩ := not_or.mp hviolated
    have hbefore : ∃ j < k, ∃ imm', is[j]? = some (.adrp rd imm') := by
      by_contra hnone
      exact hadrp fun j hj imm' hj' => hnone ⟨j, hj, imm', hj'⟩
    obtain ⟨j, hjk, ⟨imm', hj⟩, hafter⟩ := exists_last hbefore
    have hlast (m : ℕ) (hjm : j < m) (hmk : m < k) (imm' : BitVec 21) :
        is[m]? ≠ some (.adrp rd imm') :=
      fun heq => hafter m hjm hmk ⟨imm', heq⟩
    by_cases hsame : rn = rd
    · obtain rfl : rd = 31 := by
        by_contra hsp
        exact hsource ⟨hsame, hsp⟩
      subst hsame
      exact h.not_stackPointer hcode.length_lt hk hrn hjk hj hlast
    · exact h.not_otherSource hcode.length_lt hk hrn hsame hjk hj hlast
  · intro h mem functionStart is' core protocolGuid hregisters hcode
    exact (h.of_registers hregisters).tracksCore hcode

theorem tracksRegisters_otherRegister_iff :
    (KeepsSource otherRegister → ∀ core protocolGuid, TracksCore
        (functionMemory 0x1000 otherRegister) 0x1000 otherRegister core protocolGuid) ∧
      (TracksRegisters otherRegister ↔ KeepsSource otherRegister) :=
  tracksRegisters_iff (functionMemory 0x1000 otherRegister) 0x1000 otherRegister
    (holdsFunction_functionMemory 0x1000 (by decide))

end ProjectMu
