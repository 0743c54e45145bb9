import ProjectMu.ShellCodeBlocks

/-!
# The `PSCI_MEMPROTECT` block

Two patterns of two doublewords each, the second of them in two variants that differ in one
bit. A match stores before the word it was found at.
-/

namespace ProjectMu

open Arm64

attribute [local simp] execAll Instr.exec Core.read Core.readSp Core.write Core.writeSp
  Size.narrow Size.load Size.compare

variable {P : Set Address} {c : Core} {current limit : Address}

/-- The registers at a word: the bounds of the loop and the constants. -/
structure PsciMemprotectRegs (limit current : Address) (c : Core) : Prop where
  current : c.x 2 = current
  limit : c.x 5 = limit
  first : c.x 6 = 0xD2800003180002D5
  firstNext : c.x 9 = 0xD2800001D2800002
  second : c.x 7 = 0xD2800002D2800003
  secondNext : c.x 10 = 0x18000240D2800001
  ret : c.x 11 = 0xD65F03C0

/-- The mask drops the bit in which the two variants differ. -/
theorem psciMemprotect_mask (v : BitVec 64) :
    v &&& 0xFFFFFF7FFFFFFFFF = 0x18000240D2800001 ↔
      v = 0x18000240D2800001 ∨ v = 0x180002C0D2800001 := by
  constructor
  · intro h
    have hsplit : v = (v &&& 0xFFFFFF7FFFFFFFFF) ||| (v &&& 0x8000000000) := by
      rw [← BitVec.and_or_distrib_left]
      exact (BitVec.and_allOnes).symm
    rw [h] at hsplit
    have hbit : v &&& 0x8000000000 = 0 ∨ v &&& 0x8000000000 = 0x8000000000 := by
      have htwo : (0x8000000000 : BitVec 64) = BitVec.twoPow 64 39 := rfl
      rw [htwo, BitVec.and_twoPow]
      split
      · exact .inr rfl
      · exact .inl rfl
    rcases hbit with hbit | hbit
    · rw [hbit] at hsplit
      exact .inl hsplit
    · rw [hbit] at hsplit
      exact .inr hsplit
  · rintro (rfl | rfl) <;> rfl

/-- Behind the first comparison, when it matched. -/
theorem psciMemprotect_first (h : PsciMemprotectRegs limit current c)
    (hkeep : ∀ a ∈ P, 4 ≤ (a - (current - 0x20)).toNat)
    (hfirst : c.mem.read64 current = 0xD2800003180002D5) :
    ∃ c', Runs psciMemprotectProgram P 23 c 26 c' ∧ PsciMemprotectRegs limit current c' ∧
      c'.mem = psciMemprotectBody current c.mem := by
  let loadNext : List Instr := [.ldr .x 3 2 8, .cmp .x 3 9]
  let d := execAll loadNext c
  have hnext : Runs psciMemprotectProgram P 23 c 25 d := .straight loadNext rfl rfl
  have hflags : d.flags = subFlags (c.mem.read64 (current + 8)) 0xD2800001D2800002 := by
    simp [d, loadNext, h.current, h.firstNext]
  by_cases hmatch : c.mem.read64 (current + 8) = 0xD2800001D2800002
  · have hjump : Runs psciMemprotectProgram P 25 d 40 d :=
      .taken rfl hflags (Cond.eq_holds.mpr hmatch) rfl
    have hstore : Runs psciMemprotectProgram P 40 d 41
        (d.withMem (c.mem.write (current - 0x20) 4 0xD65F03C0)) :=
      .store .w 11 2 (-0x20) rfl
          (by simp [d, loadNext, h.current, BitVec.sub_eq_add_neg]) h.ret hkeep
    have hback := hstore.trans (@Runs.branch _ P 41 26 _ (-15) rfl rfl)
    refine ⟨_, hnext.trans (hjump.trans hback), ⟨h.1, h.2, h.3, h.4, h.5, h.6, h.7⟩, ?_⟩
    exact (if_pos ⟨hfirst, hmatch⟩).symm
  · have hthrough : Runs psciMemprotectProgram P 25 d 26 d :=
      .notTaken rfl hflags (mt Cond.eq_holds.mp hmatch)
    have hother : ¬c.mem.read64 current = 0xD2800002D2800003 := by
      rw [hfirst]
      decide
    refine ⟨d, hnext.trans hthrough, ⟨h.1, h.2, h.3, h.4, h.5, h.6, h.7⟩, ?_⟩
    exact ((if_neg fun h => hmatch h.2).trans (if_neg fun h => hother h.1)).symm

/-- Behind the first comparison, when it did not match. -/
theorem psciMemprotect_second (h : PsciMemprotectRegs limit current c)
    (hkeep : ∀ a ∈ P, 4 ≤ (a - (current - 0x1C)).toNat) (hx3 : c.x 3 = c.mem.read64 current)
    (hfirst : ¬c.mem.read64 current = 0xD2800003180002D5) :
    ∃ c', Runs psciMemprotectProgram P 32 c 26 c' ∧ PsciMemprotectRegs limit current c' ∧
      c'.mem = psciMemprotectBody current c.mem := by
  let compare : List Instr := [.cmp .x 3 7]
  let d := execAll compare c
  have hcompare : Runs psciMemprotectProgram P 32 c 33 d := .straight compare rfl rfl
  have hflags : d.flags = subFlags (c.mem.read64 current) 0xD2800002D2800003 := by
    simp [d, compare, hx3, h.second]
  by_cases hsecond : c.mem.read64 current = 0xD2800002D2800003
  · have hthrough : Runs psciMemprotectProgram P 33 d 34 d :=
      .notTaken rfl hflags fun hne => Cond.ne_holds.mp hne hsecond
    let loadNext : List Instr :=
      [.ldr .x 3 2 8, .andImm 3 3 0xFFFFFF7FFFFFFFFF, .cmp .x 3 10]
    let e := execAll loadNext d
    have hnext : Runs psciMemprotectProgram P 34 d 37 e := .straight loadNext rfl rfl
    have hflags' : e.flags = subFlags (c.mem.read64 (current + 8) &&& 0xFFFFFF7FFFFFFFFF)
        0x18000240D2800001 := by
      simp [e, loadNext, d, compare, h.current, h.secondNext]
    have hrun := hcompare.trans (hthrough.trans hnext)
    by_cases hmatch : c.mem.read64 (current + 8) &&& 0xFFFFFF7FFFFFFFFF = 0x18000240D2800001
    · have hfall : Runs psciMemprotectProgram P 37 e 38 e :=
        .notTaken rfl hflags' fun hne => Cond.ne_holds.mp hne hmatch
      have hstore : Runs psciMemprotectProgram P 38 e 39
          (e.withMem (c.mem.write (current - 0x1C) 4 0xD65F03C0)) :=
        .store .w 11 2 (-0x1C) rfl
            (by simp [e, loadNext, d, compare, h.current, BitVec.sub_eq_add_neg]) h.ret hkeep
      have hback := hstore.trans (@Runs.branch _ P 39 26 _ (-13) rfl rfl)
      refine ⟨_, hrun.trans (hfall.trans hback), ⟨h.1, h.2, h.3, h.4, h.5, h.6, h.7⟩, ?_⟩
      have hboth := And.intro hsecond ((psciMemprotect_mask _).mp hmatch)
      exact ((if_neg fun h => hfirst h.1).trans (if_pos hboth)).symm
    · have hback : Runs psciMemprotectProgram P 37 e 26 e :=
        .taken rfl hflags' (Cond.ne_holds.mpr hmatch) rfl
      refine ⟨e, hrun.trans hback, ⟨h.1, h.2, h.3, h.4, h.5, h.6, h.7⟩, ?_⟩
      have hneither := mt (psciMemprotect_mask _).mpr hmatch
      exact ((if_neg fun h => hfirst h.1).trans (if_neg fun h => hneither h.2)).symm
  · have hback : Runs psciMemprotectProgram P 33 d 26 d :=
      .taken rfl hflags (Cond.ne_holds.mpr hsecond) rfl
    refine ⟨d, hcompare.trans hback, ⟨h.1, h.2, h.3, h.4, h.5, h.6, h.7⟩, ?_⟩
    exact ((if_neg fun h => hfirst h.1).trans (if_neg fun h => hsecond h.1)).symm

theorem psciMemprotect_word (h : PsciMemprotectRegs limit current c)
    (hkeep : ∀ a ∈ P, 4 ≤ (a - (current - 0x20)).toNat ∧ 4 ≤ (a - (current - 0x1C)).toNat) :
    ∃ c', Runs psciMemprotectProgram P 29 c 26 c' ∧ PsciMemprotectRegs limit current c' ∧
      c'.mem = psciMemprotectBody current c.mem := by
  let load : List Instr := [.ldr .x 3 2 0, .cmp .x 3 6]
  let d := execAll load c
  have hload : Runs psciMemprotectProgram P 29 c 31 d := .straight load rfl rfl
  have hregs : PsciMemprotectRegs limit current d := ⟨h.1, h.2, h.3, h.4, h.5, h.6, h.7⟩
  have hx3 : d.x 3 = c.mem.read64 current := by simp [d, load, h.current]
  have hflags : d.flags = subFlags (c.mem.read64 current) 0xD2800003180002D5 := by
    simp [d, load, h.current, h.first]
  by_cases hfirst : c.mem.read64 current = 0xD2800003180002D5
  · have hskip : Runs psciMemprotectProgram P 31 d 23 d :=
      .taken rfl hflags (Cond.eq_holds.mpr hfirst) rfl
    obtain ⟨c', hrun, hregs', hmem⟩ :=
      psciMemprotect_first hregs (fun a ha => (hkeep a ha).1) hfirst
    exact ⟨c', hload.trans (hskip.trans hrun), hregs', hmem⟩
  · have hskip : Runs psciMemprotectProgram P 31 d 32 d :=
      .notTaken rfl hflags (mt Cond.eq_holds.mp hfirst)
    obtain ⟨c', hrun, hregs', hmem⟩ :=
      psciMemprotect_second hregs (fun a ha => (hkeep a ha).2) hx3 hfirst
    exact ⟨c', hload.trans (hskip.trans hrun), hregs', hmem⟩

/-- The step to the next word, and back into the loop or out of it. -/
theorem psciMemprotect_advance (h : PsciMemprotectRegs limit current c) :
    ∃ c', PsciMemprotectRegs limit (current + 4) c' ∧ c'.mem = c.mem ∧
      (current + 4 < limit → Runs psciMemprotectProgram P 26 c 29 c') ∧
      (¬current + 4 < limit → Runs psciMemprotectProgram P 26 c 42 c') := by
  obtain ⟨d, hstep, hmem, hcurrent, hcmp, hx⟩ :=
    @runs_wordStep psciMemprotectProgram P 5 26 rfl (by omega) (by omega) c
  rw [h.current, h.limit] at hcmp
  rw [h.current] at hcurrent
  have hregs : PsciMemprotectRegs limit (current + 4) d :=
    ⟨hcurrent, (hx 5 (by omega)).trans h.limit, (hx 6 (by omega)).trans h.first,
      (hx 9 (by omega)).trans h.firstNext, (hx 7 (by omega)).trans h.second,
      (hx 10 (by omega)).trans h.secondNext, (hx 11 (by omega)).trans h.ret⟩
  refine ⟨d, hregs, hmem, fun hlt => ?_, fun hge => ?_⟩
  · exact hstep.trans (.notTaken rfl hcmp fun hcs => Cond.cs_holds.mp hcs hlt)
  · exact hstep.trans (.taken rfl hcmp (Cond.cs_holds.mpr hge) rfl)

/-- After the last word nothing else is done, whatever entry comes next. -/
theorem psciMemprotect_finish (c : Core) :
    ∃ d, Runs psciMemprotectProgram P 42 c 52 d ∧ d.mem = c.mem := by
  let finish : List Instr := [.ldr .x 8 8 0, .cmp .x 8 12]
  have hnext : Runs psciMemprotectProgram P 42 c 44 (execAll finish c) := .straight finish rfl rfl
  exact ⟨execAll finish c, hnext.trans (.branch rfl rfl), rfl⟩

/-- The constants of the block. -/
def psciMemprotectSetup : List Instr :=
  moveX 6 0xD2800003180002D5 ++ (moveX 7 0xD2800002D2800003 ++ (moveX 10 0x18000240D2800001 ++
    (moveW 11 0xD65F03C0 ++ moveX 9 0xD2800001D2800002)))

/-- From a list with an entry to the first word of its module, or to the end of the loop. -/
theorem psciMemprotect_enter {entry : Address}
    (hentry : c.mem.read64 (loadOrderListHead (c.x 0)) = entry)
    (hne : entry ≠ loadOrderListHead (c.x 0)) :
    ∃ d, PsciMemprotectRegs (dllBase c.mem entry + (sizeOfImage c.mem entry).setWidth 64)
        (dllBase c.mem entry) d ∧ d.mem = c.mem ∧
      (dllBase c.mem entry < dllBase c.mem entry + (sizeOfImage c.mem entry).setWidth 64 →
        Runs psciMemprotectProgram P 0 c 29 d) ∧
      (¬dllBase c.mem entry < dllBase c.mem entry + (sizeOfImage c.mem entry).setWidth 64 →
        Runs psciMemprotectProgram P 0 c 42 d) := by
  obtain ⟨c', d, hrun, hmem, hcurrent, hlimit, hcmp, hx⟩ :=
    @runs_moduleStart c psciMemprotectProgram P 12 8 5 45 psciMemprotectSetup 49 23 entry rfl rfl
      rfl rfl (by decide) rfl rfl rfl (by omega) hentry hne
  have hregs : PsciMemprotectRegs (dllBase c.mem entry + (sizeOfImage c.mem entry).setWidth 64)
      (dllBase c.mem entry) d := by
    refine ⟨hcurrent, hlimit, ?_, ?_, ?_, ?_, ?_⟩
    all_goals
      rw [hx _ (by omega) (by omega)]
      simp [psciMemprotectSetup, moveX_exec, moveW_exec, -execAll]
  refine ⟨d, hregs, hmem, fun hlt => ?_, fun hge => ?_⟩
  · exact hrun.trans (.taken rfl hcmp (Cond.cc_holds.mpr hlt) rfl)
  · have hskip : Runs psciMemprotectProgram P 49 d 50 d :=
      .notTaken rfl hcmp (mt Cond.cc_holds.mp hge)
    exact hrun.trans (hskip.trans (.branch rfl rfl))

/-- With an entry in the list, the block does to memory what the loop over its module does. -/
theorem psciMemprotect_runs {entry : Address} {n : ℕ} {m : Arm64.Memory}
    (hentry : c.mem.read64 (loadOrderListHead (c.x 0)) = entry)
    (hne : entry ≠ loadOrderListHead (c.x 0))
    (hfit : NonWrapping (dllBase c.mem entry) (sizeOfImage c.mem entry).toNat)
    (hkeep : ∀ k, k < wordCount (sizeOfImage c.mem entry).toNat → ∀ a ∈ P,
      4 ≤ (a - (word (dllBase c.mem entry) k - 0x20)).toNat ∧
        4 ≤ (a - (word (dllBase c.mem entry) k - 0x1C)).toNat)
    (hloop : forWords (fun current m => (psciMemprotectBody current m, false))
      (dllBase c.mem entry + (sizeOfImage c.mem entry).setWidth 64) n (dllBase c.mem entry) c.mem =
        some m) :
    ∃ c', Runs psciMemprotectProgram P 0 c 52 c' ∧ c'.mem = m := by
  have henter := psciMemprotect_enter (P := P) hentry hne
  rw [← BitVec.ofNat_toNat] at henter hloop
  exact hfit.runs_memory (fun k c hk hregs => psciMemprotect_word hregs (hkeep k hk))
    (fun current c hregs => psciMemprotect_advance hregs) henter psciMemprotect_finish hloop

end ProjectMu
