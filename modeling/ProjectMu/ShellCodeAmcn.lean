import ProjectMu.ShellCodeBlocks

/-!
# The `AMCNTENSET0_EL0` block

As the `ACTLR_EL1` block, with one instruction to look for.
-/

namespace ProjectMu

open Arm64

attribute [local simp] execAll Instr.exec Core.read Core.readSp Core.write Core.writeSp
  Size.narrow Size.load Size.compare

variable {P : Set Address} {c : Core} {current limit : Address}

/-- The registers at a word: the bounds of the loop and the constants. -/
structure Amcntenset0El0Regs (limit current : Address) (c : Core) : Prop where
  current : c.x 2 = current
  limit : c.x 4 = limit
  mrs : c.x 5 = 0xD53BD2A8
  movz : c.x 7 = 0xD2800008

theorem amcntenset0El0_word (h : Amcntenset0El0Regs limit current c)
    (hkeep : ∀ a ∈ P, 4 ≤ (a - current).toNat) :
    ∃ c', Runs amcntenset0El0Program P 12 c 9 c' ∧ Amcntenset0El0Regs limit current c' ∧
      c'.mem = amcntenset0El0Body current c.mem := by
  let load : List Instr := [.ldr .w 3 2 0, .cmp .w 3 5]
  let d := execAll load c
  have hload : Runs amcntenset0El0Program P 12 c 14 d := .straight load rfl rfl
  have hmrs : d.flags = subFlags (c.mem.read32 current) 0xD53BD2A8 := by
    simp [d, load, h.current, h.mrs]
  by_cases hread : c.mem.read32 current = 0xD53BD2A8
  · have hthrough : Runs amcntenset0El0Program P 14 d 15 d :=
      .notTaken rfl hmrs fun hne => Cond.ne_holds.mp hne hread
    have hstore : Runs amcntenset0El0Program P 15 d 16
        (d.withMem (c.mem.write current 4 0xD2800008)) :=
      .store .w 7 2 0 rfl (by simp [d, load, h.current]) h.movz hkeep
    have hback := hstore.trans (@Runs.branch _ P 16 9 _ (-7) rfl rfl)
    refine ⟨_, hload.trans (hthrough.trans hback), ⟨h.1, h.2, h.3, h.4⟩, ?_⟩
    exact (if_pos hread).symm
  · have hback : Runs amcntenset0El0Program P 14 d 9 d :=
      .taken rfl hmrs (Cond.ne_holds.mpr hread) rfl
    refine ⟨d, hload.trans hback, ⟨h.1, h.2, h.3, h.4⟩, ?_⟩
    exact (if_neg hread).symm

/-- The step to the next word, and back into the loop or out of it. -/
theorem amcntenset0El0_advance (h : Amcntenset0El0Regs limit current c) :
    ∃ c', Amcntenset0El0Regs limit (current + 4) c' ∧ c'.mem = c.mem ∧
      (current + 4 < limit → Runs amcntenset0El0Program P 9 c 12 c') ∧
      (¬current + 4 < limit → Runs amcntenset0El0Program P 9 c 17 c') := by
  obtain ⟨d, hstep, hmem, hcurrent, hcmp, hx⟩ :=
    @runs_wordStep amcntenset0El0Program P 4 9 rfl (by omega) (by omega) c
  rw [h.current, h.limit] at hcmp
  rw [h.current] at hcurrent
  have hregs : Amcntenset0El0Regs limit (current + 4) d :=
    ⟨hcurrent, (hx 4 (by omega)).trans h.limit, (hx 5 (by omega)).trans h.mrs,
      (hx 7 (by omega)).trans h.movz⟩
  refine ⟨d, hregs, hmem, fun hlt => ?_, fun hge => ?_⟩
  · exact hstep.trans (.notTaken rfl hcmp fun hcs => Cond.cs_holds.mp hcs hlt)
  · exact hstep.trans (.taken rfl hcmp (Cond.cs_holds.mpr hge) rfl)

/-- After the last word nothing else is done, whatever entry comes next. -/
theorem amcntenset0El0_finish (c : Core) :
    ∃ d, Runs amcntenset0El0Program P 17 c 28 d ∧ d.mem = c.mem := by
  let finish : List Instr := [.ldr .x 6 6 0, .cmp .x 6 8]
  have hnext : Runs amcntenset0El0Program P 17 c 19 (execAll finish c) := .straight finish rfl rfl
  exact ⟨execAll finish c, hnext.trans (.branch rfl rfl), rfl⟩

theorem amcntenset0El0_runs_empty
    (h : c.mem.read64 (loadOrderListHead (c.x 0)) = loadOrderListHead (c.x 0)) :
    ∃ c', Runs amcntenset0El0Program P 0 c 28 c' ∧ c'.mem = c.mem := by
  obtain ⟨d, hstart, hmem, -, hflags⟩ :=
    @runs_listStart amcntenset0El0Program P 8 6 rfl (by omega) (by omega) (by omega) c
  exact ⟨d, hstart.trans (.taken rfl hflags (Cond.eq_holds.mpr h) rfl), hmem⟩

/-- The constants of the block. -/
def amcntenset0El0Setup : List Instr :=
  moveW 5 0xD53BD2A8 ++ moveW 7 0xD2800008

/-- From a list with an entry to the first word of its module, or to the end of the loop. -/
theorem amcntenset0El0_enter {entry : Address}
    (hentry : c.mem.read64 (loadOrderListHead (c.x 0)) = entry)
    (hne : entry ≠ loadOrderListHead (c.x 0)) :
    ∃ d, Amcntenset0El0Regs (dllBase c.mem entry + (sizeOfImage c.mem entry).setWidth 64)
        (dllBase c.mem entry) d ∧ d.mem = c.mem ∧
      (dllBase c.mem entry < dllBase c.mem entry + (sizeOfImage c.mem entry).setWidth 64 →
        Runs amcntenset0El0Program P 0 c 12 d) ∧
      (¬dllBase c.mem entry < dllBase c.mem entry + (sizeOfImage c.mem entry).setWidth 64 →
        Runs amcntenset0El0Program P 0 c 17 d) := by
  obtain ⟨c', d, hrun, hmem, hcurrent, hlimit, hcmp, hx⟩ :=
    @runs_moduleStart c amcntenset0El0Program P 8 6 4 20 amcntenset0El0Setup 25 12 entry rfl rfl
      rfl rfl (by decide) rfl rfl rfl (by omega) hentry hne
  have hregs : Amcntenset0El0Regs (dllBase c.mem entry + (sizeOfImage c.mem entry).setWidth 64)
      (dllBase c.mem entry) d := by
    refine ⟨hcurrent, hlimit, ?_, ?_⟩
    all_goals
      rw [hx _ (by omega) (by omega)]
      simp [amcntenset0El0Setup, moveW_exec, -execAll]
  refine ⟨d, hregs, hmem, fun hlt => ?_, fun hge => ?_⟩
  · exact hrun.trans (.taken rfl hcmp (Cond.cc_holds.mpr hlt) rfl)
  · have hskip : Runs amcntenset0El0Program P 24 d 25 d :=
      .notTaken rfl hcmp (mt Cond.cc_holds.mp hge)
    exact hrun.trans (hskip.trans (.branch rfl rfl))

/-- With an entry in the list, the block does to memory what the loop over its module does. -/
theorem amcntenset0El0_runs {entry : Address} {n : ℕ} {m : Arm64.Memory}
    (hentry : c.mem.read64 (loadOrderListHead (c.x 0)) = entry)
    (hne : entry ≠ loadOrderListHead (c.x 0))
    (hfit : NonWrapping (dllBase c.mem entry) (sizeOfImage c.mem entry).toNat)
    (hkeep : ∀ k, k < wordCount (sizeOfImage c.mem entry).toNat →
      ∀ a ∈ P, 4 ≤ (a - word (dllBase c.mem entry) k).toNat)
    (hloop : forWords (fun current m => (amcntenset0El0Body current m, false))
      (dllBase c.mem entry + (sizeOfImage c.mem entry).setWidth 64) n (dllBase c.mem entry) c.mem =
        some m) :
    ∃ c', Runs amcntenset0El0Program P 0 c 28 c' ∧ c'.mem = m := by
  have henter := amcntenset0El0_enter (P := P) hentry hne
  rw [← BitVec.ofNat_toNat] at henter hloop
  exact hfit.runs_memory (fun k c hk hregs => amcntenset0El0_word hregs (hkeep k hk))
    (fun current c hregs => amcntenset0El0_advance hregs) henter amcntenset0El0_finish hloop

end ProjectMu
