import ProjectMu.ShellCode
import ProjectMu.ShellCodeReference
import ProjectMu.WordLoopRuns

/-!
# What the blocks of the shell code share

Each block puts its constants into registers in moves of 16 bits, and walks the load order
list and the words of a module with the same few instructions in registers of its own.
-/

namespace ProjectMu

open Arm64

variable {c : Core}

theorem ones_getLsbD (i : ℕ) : (0xFFFF : BitVec 64).getLsbD i = decide (i < 16) := by
  have hones : (0xFFFF : BitVec 64) = (BitVec.allOnes 16).setWidth 64 := rfl
  rw [hones, BitVec.getLsbD_setWidth, BitVec.getLsbD_allOnes, ← Bool.decide_and]
  exact decide_eq_decide.mpr (by omega)

/-- The next 16 bits of `v` put into a value that has its bits below `k`. -/
theorem insert_getLsbD {u v : BitVec 64} {k i : ℕ}
    (h : ∀ i, i < k → u.getLsbD i = v.getLsbD i) (hi : i < k + 16) (h64 : i < 64) :
    (u &&& ~~~((0xFFFF : BitVec 64) <<< k) ||| (v.extractLsb' k 16).setWidth 64 <<< k).getLsbD i =
      v.getLsbD i := by
  rw [BitVec.getLsbD_or, BitVec.getLsbD_and, BitVec.getLsbD_not, BitVec.getLsbD_shiftLeft,
    BitVec.getLsbD_shiftLeft, ones_getLsbD, BitVec.getLsbD_setWidth, BitVec.getLsbD_extractLsb']
  rcases Nat.lt_or_ge i k with hlt | hge
  · rw [← h i hlt]
    simp [hlt, h64]
  · have hoffset : k + (i - k) = i := by omega
    have hlow : i - k < 16 := by omega
    have hlow64 : i - k < 64 := by omega
    simp [Nat.not_lt.mpr hge, hoffset, hlow, h64, hlow64]

theorem first_getLsbD {v : BitVec 64} {i : ℕ} (hi : i < 16) :
    ((v.extractLsb' 0 16).setWidth 64 <<< 0).getLsbD i = v.getLsbD i := by
  have h64 : i < 64 := by omega
  simp [hi, h64]

section
variable {rd : ℕ} (hrd : rd ≠ 31)
include hrd

theorem moveX_exec (v : BitVec 64) : execAll (moveX rd v) c = c.write rd v := by
  let insert (u : BitVec 64) (k : ℕ) : BitVec 64 :=
    u &&& ~~~((0xFFFF : BitVec 64) <<< k) ||| (v.extractLsb' k 16).setWidth 64 <<< k
  have hall : insert (insert (insert ((v.extractLsb' 0 16).setWidth 64 <<< 0) 16) 32) 48 = v := by
    refine BitVec.eq_of_getLsbD_eq fun i hi => insert_getLsbD (fun i hi => ?_) hi hi
    refine insert_getLsbD (fun i hi => ?_) hi (by omega)
    exact insert_getLsbD (fun i hi => first_getLsbD hi) hi (by omega)
  simp only [moveX, execAll, List.foldl, Instr.exec, Core.read_write hrd, Core.write_write,
    Size.narrow]
  exact congrArg (c.write rd) hall

theorem moveW_exec (v : BitVec 32) : execAll (moveW rd v) c = c.write rd (v.setWidth 64) := by
  let u : BitVec 64 := v.setWidth 64
  let insert (w : BitVec 64) (k : ℕ) : BitVec 64 :=
    w &&& ~~~((0xFFFF : BitVec 64) <<< k) ||| (u.extractLsb' k 16).setWidth 64 <<< k
  have hhalf {k : ℕ} (hk : k + 16 ≤ 32) : v.extractLsb' k 16 = u.extractLsb' k 16 := by
    refine BitVec.eq_of_getLsbD_eq fun i hi => ?_
    have h64 : k + i < 64 := by omega
    simp [u, h64]
  have hall : Size.w.narrow (insert ((u.extractLsb' 0 16).setWidth 64 <<< 0) 16) = u := by
    refine BitVec.eq_of_getLsbD_eq fun i hi => ?_
    rw [Size.narrow, BitVec.getLsbD_setWidth, BitVec.getLsbD_setWidth]
    rcases Nat.lt_or_ge i 32 with hlt | hge
    · rw [insert_getLsbD (fun i hi => first_getLsbD hi) hlt hi, decide_eq_true hlt,
        decide_eq_true hi, Bool.true_and, Bool.true_and]
    · have hhigh : u.getLsbD i = false := by
        rw [BitVec.getLsbD_setWidth, BitVec.getLsbD_of_ge v i hge, Bool.and_false]
      rw [hhigh, decide_eq_false (Nat.not_lt.mpr hge), Bool.false_and, Bool.and_false]
  simp only [moveW, execAll, List.foldl, Instr.exec, Core.read_write hrd, Core.write_write]
  rw [hhalf (by omega), hhalf (by omega)]
  exact congrArg (c.write rd) hall

end

/-- The first entry of the load order list, compared with the list head. -/
def listStart (head entry : ℕ) : List Instr :=
  [.orr .x head 31 0, .ldrPre .x entry head 0x10, .cmp .x entry head]

/-- The first word of the module of an entry and its end, compared. -/
def moduleStart (entry limit : ℕ) : List Instr :=
  [.ldr .x 2 entry 0x30, .ldr .w limit entry 0x40, .add .x limit limit 2, .cmp .x 2 limit]

/-- The next word, compared with the end of the module. -/
def wordStep (limit : ℕ) : List Instr := [.addImm .x 2 2 4, .cmp .x 2 limit]

section
variable {p : List Instr} {P : Set Address} {head entry limit i : ℕ}

attribute [local simp] execAll Instr.exec Core.read Core.readSp Core.write Core.writeSp
  Size.narrow Size.load Size.compare

theorem runs_listStart (hlist : p.take 3 = listStart head entry) (hhead : head ≠ 31)
    (hentry : entry ≠ 31) (hne : entry ≠ head) (c : Core) :
    ∃ d, Runs p P 0 c 3 d ∧ d.mem = c.mem ∧
      d.x entry = c.mem.read64 (loadOrderListHead (c.x 0)) ∧
      d.flags = subFlags (c.mem.read64 (loadOrderListHead (c.x 0)))
        (loadOrderListHead (c.x 0)) := by
  have hrun : Runs p P 0 c 3 (execAll (listStart head entry) c) :=
    .straight (listStart head entry) hlist rfl
  refine ⟨_, hrun, execAll_mem rfl, ?_, ?_⟩
  · simp [listStart, hhead, hentry, loadOrderListHead]
  · simp [listStart, hhead, hentry, hne.symm, loadOrderListHead]

theorem runs_wordStep (hstep : (p.drop i).take 2 = wordStep limit) (hlimit : limit ≠ 31)
    (hne : limit ≠ 2) (c : Core) :
    ∃ d, Runs p P i c (i + 2) d ∧ d.mem = c.mem ∧ d.x 2 = c.x 2 + 4 ∧
      d.flags = subFlags (c.x 2 + 4) (c.x limit) ∧ ∀ r, r ≠ 2 → d.x r = c.x r := by
  have hrun : Runs p P i c (i + 2) (execAll (wordStep limit) c) :=
    .straight (wordStep limit) hstep rfl
  refine ⟨_, hrun, execAll_mem rfl, ?_, ?_, fun r hr => ?_⟩
  · simp [wordStep]
  · simp [wordStep, hlimit, hne]
  · exact execAll_x (by simp [wordStep, Instr.dests, hr])

/-- From a list with an entry to the comparison before the first word of its module. The
constants are those of the instructions in between. -/
theorem runs_moduleStart {setup : List Instr} {offset offset' : ℤ} {first : Address}
    (hlist : p.take 3 = listStart head entry) (hbeq : p[3]? = some (.bCond .eq offset))
    (hsetup : (p.drop 4).take setup.length = setup) (hstraight : setup.all Instr.IsStraight)
    (hkeep : ∀ instr ∈ setup, entry ∉ instr.dests)
    (hb : p[4 + setup.length]? = some (.b offset'))
    (hjump : ((4 + setup.length : ℕ) : ℤ) + offset' = i)
    (hmodule : (p.drop i).take 4 = moduleStart entry limit)
    (hregs : head ≠ 31 ∧ entry ≠ 31 ∧ entry ≠ head ∧ entry ≠ 2 ∧ entry ≠ limit ∧ limit ≠ 31 ∧
      limit ≠ 2)
    (hfirst : c.mem.read64 (loadOrderListHead (c.x 0)) = first)
    (hne : first ≠ loadOrderListHead (c.x 0)) :
    ∃ c' d, Runs p P 0 c (i + 4) d ∧ d.mem = c.mem ∧ d.x 2 = dllBase c.mem first ∧
      d.x limit = dllBase c.mem first + (sizeOfImage c.mem first).setWidth 64 ∧
      d.flags = subFlags (dllBase c.mem first)
        (dllBase c.mem first + (sizeOfImage c.mem first).setWidth 64) ∧
      ∀ r, r ≠ 2 → r ≠ limit → d.x r = (execAll setup c').x r := by
  obtain ⟨hhead, hentry, hentryHead, hentryCurrent, hentryLimit, hlimit, hlimitCurrent⟩ := hregs
  obtain ⟨c₁, hstart, hmem, hx, hflags⟩ := runs_listStart (P := P) hlist hhead hentry hentryHead c
  rw [hfirst] at hx hflags
  let c₂ := execAll setup c₁
  have hnext : Runs p P 3 c₁ 4 c₁ := .notTaken hbeq hflags (mt Cond.eq_holds.mp hne)
  have hmoves : Runs p P 4 c₁ (4 + setup.length) c₂ := .straight setup hsetup hstraight
  have hover : Runs p P (4 + setup.length) c₂ i c₂ := .branch hb hjump
  let d := execAll (moduleStart entry limit) c₂
  have henter : Runs p P i c₂ (i + 4) d := .straight (moduleStart entry limit) hmodule rfl
  have hx₂ : c₂.x entry = first := (execAll_x hkeep).trans hx
  have hmem₂ : c₂.mem = c.mem := (execAll_mem hstraight).trans hmem
  have hcurrent : d.x 2 = dllBase c.mem first := by
    simp [d, moduleStart, hlimitCurrent.symm, hlimit, hentry, hx₂, hmem₂, dllBase]
  have hend : d.x limit = dllBase c.mem first + (sizeOfImage c.mem first).setWidth 64 := by
    simp [d, moduleStart, hlimitCurrent.symm, hlimit, hentry, hentryCurrent, hx₂, hmem₂, dllBase,
      sizeOfImage, BitVec.add_comm]
  have hcmp : d.flags = subFlags (d.x 2) (d.x limit) := by
    simp [d, moduleStart, hlimitCurrent.symm, hlimit, hentry, hentryCurrent]
  rw [hcurrent, hend] at hcmp
  have hrun := hstart.trans (hnext.trans (hmoves.trans (hover.trans henter)))
  refine ⟨c₁, d, hrun, (execAll_mem rfl).trans hmem₂, hcurrent, hend, hcmp, fun r hr hr' => ?_⟩
  exact execAll_x (by simp [moduleStart, Instr.dests, hr, hr'])

end

end ProjectMu
