import ProjectMu.ShellCodeBlocks

/-!
# The `IRM_X8` block

The loop over a module only looks for two places. Where it finds both, the block stores a
branch at the first and the code it goes to before the second.
-/

namespace ProjectMu

open Arm64

attribute [local simp] Instr.exec Core.read Core.readSp Core.write Core.writeSp Size.narrow
  Size.load Size.compare

variable {P : Set Address} {c : Core} {s : IrmSearch} {current limit base : Address} {size : ℕ}

/-- The registers at a word: the bounds of the loop, the constants and what has been found. -/
structure IrmX8Regs (limit current : Address) (s : IrmSearch) (c : Core) : Prop where
  current : c.x 2 = current
  limit : c.x 6 = limit
  msr : c.x 8 = 0xD518CBA8
  func : c.x 7 = 0x0009001600090003
  gicInstr : c.x 4 = s.gicInstr
  realEstateFunc : c.x 3 = s.realEstateFunc
  mem : c.mem = s.mem

/-- The flags after `cmp x4, #0` and `ccmp x3, #0, #4, ne`. -/
def foundFlags (gicInstr realEstateFunc : Address) : Flags :=
  if Cond.ne.holds (subFlags gicInstr 0) then subFlags realEstateFunc 0
  else ⟨false, true, false, false⟩

theorem foundFlags_ne {a b : Address} : Cond.ne.holds (foundFlags a b) ↔ a ≠ 0 ∧ b ≠ 0 := by
  rw [foundFlags]
  split
  · next h => exact Cond.ne_holds.trans (iff_and_self.mpr fun _ => Cond.ne_holds.mp h)
  · next h =>
    have hzero : ¬a ≠ 0 := mt Cond.ne_holds.mpr h
    exact iff_of_false nofun fun hboth => hzero hboth.1

theorem foundFlags_eq {a b : Address} : Cond.eq.holds (foundFlags a b) ↔ ¬(a ≠ 0 ∧ b ≠ 0) := by
  rw [← foundFlags_ne]
  cases h : (foundFlags a b).z <;> simp [Cond.holds, h]

theorem ite_ne_holds {α : Type*} {w : ℕ} {a b : BitVec w} {x y : α} :
    (if Cond.ne.holds (subFlags a b) then x else y) = if a = b then y else x := by
  by_cases h : a = b
  · rw [if_neg fun hne => Cond.ne_holds.mp hne h, if_pos h]
  · rw [if_pos (Cond.ne_holds.mpr h), if_neg h]

theorem irmX8_findInstr (h : IrmX8Regs limit current s c) :
    ∃ d, Runs irmX8Program P 21 c 24 d ∧ d.mem = c.mem ∧
      d.x 4 = (irmX8Body current s).1.gicInstr ∧ ∀ r, r ≠ 4 → r ≠ 5 → d.x r = c.x r := by
  let find : List Instr := [.ldr .w 5 2 0, .cmp .w 5 8, .csel .x 4 4 2 .ne]
  refine ⟨execAll find c, .straight find rfl rfl, rfl, ?_, fun r hr hr' => execAll_x ?_⟩
  · simp [find, execAll, h.current, h.msr, h.gicInstr, h.mem, ite_ne_holds, irmX8Body]
  · simp [find, Instr.dests, hr, hr']

theorem irmX8_findFunc (h : c.x 2 = current) (hfunc : c.x 7 = 0x0009001600090003)
    (hreal : c.x 3 = s.realEstateFunc) (hmem : c.mem = s.mem) :
    ∃ d, Runs irmX8Program P 24 c 27 d ∧ d.mem = c.mem ∧
      d.x 3 = (irmX8Body current s).1.realEstateFunc ∧ ∀ r, r ≠ 3 → r ≠ 5 → d.x r = c.x r := by
  let find : List Instr := [.ldr .x 5 2 0, .cmp .x 5 7, .csel .x 3 3 2 .ne]
  refine ⟨execAll find c, .straight find rfl rfl, rfl, ?_, fun r hr hr' => execAll_x ?_⟩
  · simp [find, execAll, h, hfunc, hreal, hmem, ite_ne_holds, irmX8Body]
  · simp [find, Instr.dests, hr, hr']

/-- Up to the branch out of the loop. -/
theorem irmX8_word (h : IrmX8Regs limit current s c) :
    ∃ d, Runs irmX8Program P 21 c 29 d ∧ IrmX8Regs limit current (irmX8Body current s).1 d ∧
      d.flags = foundFlags (irmX8Body current s).1.gicInstr
        (irmX8Body current s).1.realEstateFunc := by
  obtain ⟨c₁, hinstr, hmem₁, hx₄, hx₁⟩ := irmX8_findInstr (P := P) h
  have hcurrent : c₁.x 2 = current := (hx₁ 2 (by omega) (by omega)).trans h.current
  have hfunc : c₁.x 7 = 0x0009001600090003 := (hx₁ 7 (by omega) (by omega)).trans h.func
  have hreal : c₁.x 3 = s.realEstateFunc := (hx₁ 3 (by omega) (by omega)).trans h.realEstateFunc
  obtain ⟨c₂, hrun, hmem₂, hx₃, hx₂⟩ :=
    irmX8_findFunc (P := P) hcurrent hfunc hreal (hmem₁.trans h.mem)
  let test : List Instr := [.cmpImm .x 4 0, .ccmp .x 3 0 ⟨false, true, false, false⟩ .ne]
  have htest : Runs irmX8Program P 27 c₂ 29 (execAll test c₂) := .straight test rfl rfl
  have hregs : IrmX8Regs limit current (irmX8Body current s).1 c₂ := by
    refine ⟨(hx₂ 2 (by omega) (by omega)).trans hcurrent, ?_, ?_,
      (hx₂ 7 (by omega) (by omega)).trans hfunc, ?_, hx₃, hmem₂.trans (hmem₁.trans h.mem)⟩
    · rw [hx₂ 6 (by omega) (by omega), hx₁ 6 (by omega) (by omega), h.limit]
    · rw [hx₂ 8 (by omega) (by omega), hx₁ 8 (by omega) (by omega), h.msr]
    · rw [hx₂ 4 (by omega) (by omega), hx₄]
  refine ⟨_, hinstr.trans (hrun.trans htest), ⟨hregs.1, hregs.2, hregs.3, hregs.4, hregs.5,
    hregs.6, hregs.7⟩, ?_⟩
  rw [← hregs.gicInstr, ← hregs.realEstateFunc]
  rfl

/-- What has been found when the loop is over. -/
structure IrmX8Found (s : IrmSearch) (c : Core) : Prop where
  gicInstr : c.x 4 = s.gicInstr
  realEstateFunc : c.x 3 = s.realEstateFunc
  mem : c.mem = s.mem

/-- A word at which the loop is not left, and the step to the next one. -/
theorem irmX8_advance (h : IrmX8Regs limit current s c)
    (hstay : (irmX8Body current s).2 = false) :
    ∃ d, IrmX8Regs limit (current + 4) (irmX8Body current s).1 d ∧
      (current + 4 < limit → Runs irmX8Program P 21 c 21 d) ∧
      (¬current + 4 < limit → Runs irmX8Program P 21 c 13 d) := by
  obtain ⟨c₁, hword, hregs, hflags⟩ := irmX8_word (P := P) h
  have hnotFound := of_decide_eq_false hstay
  have hthrough : Runs irmX8Program P 29 c₁ 30 c₁ :=
    .notTaken rfl hflags (mt foundFlags_ne.mp hnotFound)
  obtain ⟨d, hstep, hmem, hcurrent, hcmp, hx⟩ :=
    @runs_wordStep irmX8Program P 6 30 rfl (by omega) (by omega) c₁
  rw [hregs.current, hregs.limit] at hcmp
  rw [hregs.current] at hcurrent
  have hregs' : IrmX8Regs limit (current + 4) (irmX8Body current s).1 d :=
    ⟨hcurrent, (hx 6 (by omega)).trans hregs.limit, (hx 8 (by omega)).trans hregs.msr,
      (hx 7 (by omega)).trans hregs.func, (hx 4 (by omega)).trans hregs.gicInstr,
      (hx 3 (by omega)).trans hregs.realEstateFunc, hmem.trans hregs.mem⟩
  have hrun := hword.trans (hthrough.trans hstep)
  refine ⟨d, hregs', fun hlt => ?_, fun hge => ?_⟩
  · exact hrun.trans (.taken rfl hcmp (Cond.cc_holds.mpr hlt) rfl)
  · have hend : Runs irmX8Program P 32 d 33 d := .notTaken rfl hcmp (mt Cond.cc_holds.mp hge)
    exact hrun.trans (hend.trans (.branch rfl rfl))

theorem irmX8_runsWords (hfit : Fits base size) :
    RunsWords irmX8Program P 21 13 irmX8Body base size
      (IrmX8Regs (base + BitVec.ofNat 64 size)) IrmX8Found := by
  refine ⟨?_, ?_, ?_⟩
  · intro k s c hk hregs hstay
    obtain ⟨d, hregs', hmore, -⟩ := irmX8_advance (P := P) hregs hstay
    rw [word_succ] at hregs' hmore
    exact ⟨d, hmore ((hfit.word_lt_iff hk.le).mpr hk), hregs'⟩
  · intro k s c hk hregs hstay
    obtain ⟨d, hregs', -, hdone⟩ := irmX8_advance (P := P) hregs hstay
    rw [word_succ] at hdone
    have hend : ¬word base (k + 1) < base + BitVec.ofNat 64 size := fun hlt =>
      absurd ((hfit.word_lt_iff hk.le).mp hlt) (by omega)
    exact ⟨d, hdone hend, ⟨hregs'.gicInstr, hregs'.realEstateFunc, hregs'.mem⟩⟩
  · intro k s c hk hregs hleave
    obtain ⟨d, hword, hregs', hflags⟩ := irmX8_word (P := P) hregs
    have hbreak : Runs irmX8Program P 29 d 13 d :=
      .taken rfl hflags (foundFlags_ne.mpr (of_decide_eq_true hleave)) rfl
    exact ⟨d, hword.trans hbreak, ⟨hregs'.gicInstr, hregs'.realEstateFunc, hregs'.mem⟩⟩

/-- The constants of the block, and nothing found yet. -/
def irmX8Setup : List Instr :=
  [.movz .x 3 0 0, .movz .x 4 0 0] ++ (moveW 8 0xD518CBA8 ++ moveX 7 0x0009001600090003)

/-- From a list with an entry to the first word of its module, or to the end of the loop. -/
theorem irmX8_enter {entry : Address}
    (hentry : c.mem.read64 (loadOrderListHead (c.x 0)) = entry)
    (hne : entry ≠ loadOrderListHead (c.x 0)) :
    ∃ d, IrmX8Regs (dllBase c.mem entry + (sizeOfImage c.mem entry).setWidth 64)
        (dllBase c.mem entry) ⟨c.mem, 0, 0⟩ d ∧
      (dllBase c.mem entry < dllBase c.mem entry + (sizeOfImage c.mem entry).setWidth 64 →
        Runs irmX8Program P 0 c 21 d) ∧
      (¬dllBase c.mem entry < dllBase c.mem entry + (sizeOfImage c.mem entry).setWidth 64 →
        Runs irmX8Program P 0 c 13 d) := by
  obtain ⟨c', d, hrun, hmem, hcurrent, hlimit, hcmp, hx⟩ :=
    @runs_moduleStart c irmX8Program P 10 9 6 16 irmX8Setup 101 4 entry rfl rfl rfl rfl (by decide)
      rfl rfl rfl (by omega) hentry hne
  have hregs : IrmX8Regs (dllBase c.mem entry + (sizeOfImage c.mem entry).setWidth 64)
      (dllBase c.mem entry) ⟨c.mem, 0, 0⟩ d := by
    refine ⟨hcurrent, hlimit, ?_, ?_, ?_, ?_, hmem⟩
    all_goals
      rw [hx _ (by omega) (by omega), irmX8Setup, execAll_append, execAll_append, moveW_exec,
        moveX_exec]
      all_goals simp [execAll]
  refine ⟨d, hregs, fun hlt => ?_, fun hge => ?_⟩
  · exact hrun.trans (.notTaken rfl hcmp fun hcs => Cond.cs_holds.mp hcs hlt)
  · exact hrun.trans (.taken rfl hcmp (Cond.cs_holds.mpr hge) rfl)

end ProjectMu
