import ProjectMu.ShellCodeBlocks

/-!
# The `ACTLR_EL1` block

The block takes the first entry of the load order list, if there is one, runs the loop of its
reference over the words of that module and goes to its end.
-/

namespace ProjectMu

open Arm64

attribute [local simp] execAll Instr.exec Core.read Core.readSp Core.write Core.writeSp
  Size.narrow Size.load Size.compare

variable {P : Set Address} {c : Core} {current limit : Address}

/-- The registers at a word: the bounds of the loop and the constants. -/
structure ActlrEl1Regs (limit current : Address) (c : Core) : Prop where
  current : c.x 2 = current
  limit : c.x 4 = limit
  mrs : c.x 6 = 0xD5381028
  msr : c.x 7 = 0x2AE7EFD8
  movz : c.x 9 = 0xD2800008
  nop : c.x 10 = 0xD503201F

/-- The two encodings of `msr` are found by one addition and one comparison. -/
theorem one_lt_add_iff (w : BitVec 32) :
    1 < w + 0x2AE7EFD8 ↔ ¬(w = 0xD5181028 ∨ w = 0xD5181029) := by
  bv_omega

theorem actlrEl1_word (h : ActlrEl1Regs limit current c)
    (hkeep : ∀ a ∈ P, 4 ≤ (a - current).toNat) :
    ∃ c', Runs actlrEl1Program P 17 c 14 c' ∧ ActlrEl1Regs limit current c' ∧
      c'.mem = actlrEl1Body current c.mem := by
  let load : List Instr := [.ldr .w 3 2 0, .cmp .w 3 6]
  let d := execAll load c
  have hload : Runs actlrEl1Program P 17 c 19 d := .straight load rfl rfl
  have hmrs : d.flags = subFlags (c.mem.read32 current) 0xD5381028 := by
    simp [d, load, h.current, h.mrs]
  by_cases hread : c.mem.read32 current = 0xD5381028
  · have hjump : Runs actlrEl1Program P 19 d 13 d := .taken rfl hmrs (Cond.eq_holds.mpr hread) rfl
    have hstore : Runs actlrEl1Program P 13 d 14 (d.withMem (c.mem.write current 4 0xD2800008)) :=
      .store .w 9 2 0 rfl (by simp [d, load, h.current]) h.movz hkeep
    refine ⟨_, hload.trans (hjump.trans hstore), ⟨h.1, h.2, h.3, h.4, h.5, h.6⟩, ?_⟩
    exact (if_pos hread).symm
  let test : List Instr := [.add .w 3 3 7, .cmpImm .w 3 1]
  let e := execAll test d
  have hnext : Runs actlrEl1Program P 19 d 20 d := .notTaken rfl hmrs (mt Cond.eq_holds.mp hread)
  have htest : Runs actlrEl1Program P 20 d 22 e := .straight test rfl rfl
  have hmsr : e.flags = subFlags (c.mem.read32 current + 0x2AE7EFD8) 1 := by
    simp [d, e, load, test, h.current, h.msr, BitVec.setWidth_add]
  have hprefix := hload.trans (hnext.trans htest)
  by_cases hwrite : c.mem.read32 current = 0xD5181028 ∨ c.mem.read32 current = 0xD5181029
  · have hthrough : Runs actlrEl1Program P 22 e 23 e :=
      .notTaken rfl hmsr fun hi => (one_lt_add_iff _).mp (Cond.hi_holds.mp hi) hwrite
    have hstore : Runs actlrEl1Program P 23 e 24 (e.withMem (c.mem.write current 4 0xD503201F)) :=
      .store .w 10 2 0 rfl (by simp [d, e, load, test, h.current]) h.nop hkeep
    have hback := hstore.trans (@Runs.branch _ P 24 14 _ (-10) rfl rfl)
    refine ⟨_, hprefix.trans (hthrough.trans hback), ⟨h.1, h.2, h.3, h.4, h.5, h.6⟩, ?_⟩
    rw [actlrEl1Body, if_neg hread, if_pos hwrite]
    rfl
  · have hback : Runs actlrEl1Program P 22 e 14 e :=
      .taken rfl hmsr (Cond.hi_holds.mpr ((one_lt_add_iff _).mpr hwrite)) rfl
    refine ⟨e, hprefix.trans hback, ⟨h.1, h.2, h.3, h.4, h.5, h.6⟩, ?_⟩
    rw [actlrEl1Body, if_neg hread, if_neg hwrite]
    rfl

/-- The step to the next word, and back into the loop or out of it. -/
theorem actlrEl1_advance (h : ActlrEl1Regs limit current c) :
    ∃ c', ActlrEl1Regs limit (current + 4) c' ∧ c'.mem = c.mem ∧
      (current + 4 < limit → Runs actlrEl1Program P 14 c 17 c') ∧
      (¬current + 4 < limit → Runs actlrEl1Program P 14 c 25 c') := by
  obtain ⟨d, hstep, hmem, hcurrent, hcmp, hx⟩ :=
    @runs_wordStep actlrEl1Program P 4 14 rfl (by omega) (by omega) c
  rw [h.current, h.limit] at hcmp
  rw [h.current] at hcurrent
  have hregs : ActlrEl1Regs limit (current + 4) d :=
    ⟨hcurrent, (hx 4 (by omega)).trans h.limit, (hx 6 (by omega)).trans h.mrs,
      (hx 7 (by omega)).trans h.msr, (hx 9 (by omega)).trans h.movz,
      (hx 10 (by omega)).trans h.nop⟩
  refine ⟨d, hregs, hmem, fun hlt => ?_, fun hge => ?_⟩
  · exact hstep.trans (.notTaken rfl hcmp fun hcs => Cond.cs_holds.mp hcs hlt)
  · exact hstep.trans (.taken rfl hcmp (Cond.cs_holds.mpr hge) rfl)

/-- After the last word nothing else is done, whatever entry comes next. -/
theorem actlrEl1_finish (c : Core) : ∃ d, Runs actlrEl1Program P 25 c 36 d ∧ d.mem = c.mem := by
  let finish : List Instr := [.ldr .x 8 8 0, .cmp .x 8 11]
  have hnext : Runs actlrEl1Program P 25 c 27 (execAll finish c) := .straight finish rfl rfl
  exact ⟨execAll finish c, hnext.trans (.branch rfl rfl), rfl⟩

theorem actlrEl1_runs_empty
    (h : c.mem.read64 (loadOrderListHead (c.x 0)) = loadOrderListHead (c.x 0)) :
    ∃ c', Runs actlrEl1Program P 0 c 36 c' ∧ c'.mem = c.mem := by
  obtain ⟨d, hstart, hmem, -, hflags⟩ :=
    @runs_listStart actlrEl1Program P 11 8 rfl (by omega) (by omega) (by omega) c
  exact ⟨d, hstart.trans (.taken rfl hflags (Cond.eq_holds.mpr h) rfl), hmem⟩

/-- The constants of the block. -/
def actlrEl1Setup : List Instr :=
  moveW 6 0xD5381028 ++ (moveW 7 0x2AE7EFD8 ++ (moveW 10 0xD503201F ++ moveW 9 0xD2800008))

/-- From a list with an entry to the first word of its module, or to the end of the loop. -/
theorem actlrEl1_enter {entry : Address}
    (hentry : c.mem.read64 (loadOrderListHead (c.x 0)) = entry)
    (hne : entry ≠ loadOrderListHead (c.x 0)) :
    ∃ d, ActlrEl1Regs (dllBase c.mem entry + (sizeOfImage c.mem entry).setWidth 64)
        (dllBase c.mem entry) d ∧ d.mem = c.mem ∧
      (dllBase c.mem entry < dllBase c.mem entry + (sizeOfImage c.mem entry).setWidth 64 →
        Runs actlrEl1Program P 0 c 17 d) ∧
      (¬dllBase c.mem entry < dllBase c.mem entry + (sizeOfImage c.mem entry).setWidth 64 →
        Runs actlrEl1Program P 0 c 25 d) := by
  obtain ⟨c', d, hrun, hmem, hcurrent, hlimit, hcmp, hx⟩ :=
    @runs_moduleStart c actlrEl1Program P 11 8 4 28 actlrEl1Setup 33 16 entry rfl rfl
      rfl rfl (by decide) rfl rfl rfl (by omega) hentry hne
  have hregs : ActlrEl1Regs (dllBase c.mem entry + (sizeOfImage c.mem entry).setWidth 64)
      (dllBase c.mem entry) d := by
    refine ⟨hcurrent, hlimit, ?_, ?_, ?_, ?_⟩
    all_goals
      rw [hx _ (by omega) (by omega)]
      simp [actlrEl1Setup, moveW_exec, -execAll]
  refine ⟨d, hregs, hmem, fun hlt => ?_, fun hge => ?_⟩
  · exact hrun.trans (.taken rfl hcmp (Cond.cc_holds.mpr hlt) rfl)
  · have hskip : Runs actlrEl1Program P 32 d 33 d :=
      .notTaken rfl hcmp (mt Cond.cc_holds.mp hge)
    exact hrun.trans (hskip.trans (.branch rfl rfl))

/-- With an entry in the list, the block does to memory what the loop over its module does. -/
theorem actlrEl1_runs {entry : Address} {n : ℕ} {m : Arm64.Memory}
    (hentry : c.mem.read64 (loadOrderListHead (c.x 0)) = entry)
    (hne : entry ≠ loadOrderListHead (c.x 0))
    (hfit : NonWrapping (dllBase c.mem entry) (sizeOfImage c.mem entry).toNat)
    (hkeep : ∀ k, k < wordCount (sizeOfImage c.mem entry).toNat →
      ∀ a ∈ P, 4 ≤ (a - word (dllBase c.mem entry) k).toNat)
    (hloop : forWords (fun current m => (actlrEl1Body current m, false))
      (dllBase c.mem entry + (sizeOfImage c.mem entry).setWidth 64) n (dllBase c.mem entry) c.mem =
        some m) :
    ∃ c', Runs actlrEl1Program P 0 c 36 c' ∧ c'.mem = m := by
  have henter := actlrEl1_enter (P := P) hentry hne
  rw [← BitVec.ofNat_toNat] at henter hloop
  exact hfit.runs_memory (fun k c hk hregs => actlrEl1_word hregs (hkeep k hk))
    (fun current c hregs => actlrEl1_advance hregs) henter actlrEl1_finish hloop

end ProjectMu
