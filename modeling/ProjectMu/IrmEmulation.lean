import ProjectMu.IrmRoutine

/-!
# The routine emulates the IRM flag

A write to ICC_SGI1R_EL1 with bit 40 set is for all cores but the writing one. The routine that
is called in its place writes once for each of eight cores, and leaves out the one it runs on.
-/

namespace ProjectMu

open Arm64

attribute [local simp] Instr.exec Core.read Core.readSp Core.write Core.writeSp Core.withMem
  Size.narrow SysInstr.exec SysInstr.execAll IrmBlock.source IrmBlock.scratch

/-- The value for the core with an affinity, without the flag. -/
def sgiValue (v : BitVec 64) (k : ℕ) : BitVec 64 :=
  v &&& ~~~((1 : BitVec 64) <<< 40) ||| 1 ||| BitVec.ofNat 64 k <<< 16

/-- Bits 11 to 8 of MPIDR_EL1. -/
def ownAffinity (mpidr : BitVec 64) : ℕ := (mpidr.extractLsb' 8 4).toNat

/-- The writes for the first `n` cores. -/
def sgiWritesBelow (mpidr v : BitVec 64) (n : ℕ) : List (BitVec 64) :=
  ((List.range n).filter (fun k => k ≠ ownAffinity mpidr)).map (sgiValue v)

/-- The writes that stand for one write. -/
def sgiWrites (mpidr v : BitVec 64) : List (BitVec 64) :=
  if v.getLsbD 40 then sgiWritesBelow mpidr v 8 else [v]

variable {b : IrmBlock} {code : Address} {cpu : Processor} {affinity v stack : BitVec 64}
  {memory : Arm64.Memory} {writes : List (BitVec 64)} {k n : ℕ}

theorem sgiWritesBelow_succ (affinity v : BitVec 64) (n : ℕ) :
    sgiWritesBelow affinity v (n + 1) = sgiWritesBelow affinity v n ++
      if n = ownAffinity affinity then [] else [sgiValue v n] := by
  rw [sgiWritesBelow, List.range_succ, List.filter_append, List.map_append]
  split
  next h => rw [List.filter_singleton, decide_eq_false (not_not.mpr h)]; rfl
  next h => rw [List.filter_singleton, decide_eq_true h]; rfl

/-- The processor in the loop, with the writes so far and the core that is next. -/
structure SgiLoop (affinity v stack : BitVec 64) (memory : Arm64.Memory)
    (writes : List (BitVec 64)) (k : ℕ) (cpu : Processor) : Prop where
  value : cpu.core.x 22 = v &&& ~~~((1 : BitVec 64) <<< 40) ||| 1
  own : cpu.core.x 9 = affinity &&& 0xF00
  current : cpu.core.x 20 = BitVec.ofNat 64 k
  left : cpu.core.x 21 = BitVec.ofNat 64 (8 - k)
  sp : cpu.core.sp = stack
  mem : cpu.core.mem = memory
  mpidr : cpu.mpidr = affinity
  sgi1r : cpu.sgi1r = writes

/-- A run of the routine from one of its instructions to another one. -/
abbrev RoutineRuns (b : IrmBlock) (code : Address) (i : ℕ) (cpu : Processor) (j : ℕ)
    (cpu' : Processor) : Prop :=
  RunsIn (programAddresses code (irmRoutine b)) ⟨word code i, cpu⟩ ⟨word code j, cpu'⟩

theorem irm_setup (hcode : HoldsProgram cpu.core.mem code (irmRoutine b)) :
    ∃ d, RoutineRuns b code 3 cpu 10 d ∧
      SgiLoop cpu.mpidr (cpu.core.x b.source) cpu.core.sp cpu.core.mem cpu.sgi1r 0 d := by
  let setup : List SysInstr := [.plain (.andImm b.source b.source 0xFFFFFEFFFFFFFFFF),
    .orrImm b.source b.source 1, .plain (.orr .x 22 31 b.source), .mrsMpidr 9,
    .plain (.andImm 9 9 0xF00), .plain (.movz .x 20 0 0), .plain (.movz .w 21 8 0)]
  refine ⟨SysInstr.execAll (word code 3) setup cpu, runsIn_straight setup hcode rfl rfl, ?_⟩
  cases b <;> constructor <;> simp [setup]

theorem SgiLoop.holds (h : SgiLoop affinity v stack memory writes k cpu)
    (hcode : HoldsProgram memory code (irmRoutine b)) :
    HoldsProgram cpu.core.mem code (irmRoutine b) := by
  rw [h.mem]
  exact hcode

theorem ownAffinity_eq (affinity : BitVec 64) :
    (affinity &&& 0xF00) >>> 8 = BitVec.ofNat 64 (ownAffinity affinity) := by
  have hones : (0xF00 : BitVec 64) = (BitVec.allOnes 4).setWidth 64 <<< 8 := rfl
  apply BitVec.eq_of_getLsbD_eq
  intro i hi
  rw [ownAffinity, BitVec.ofNat_toNat, hones]
  have hshift : ¬8 + i < 8 := by omega
  simp only [BitVec.getLsbD_ushiftRight, BitVec.getLsbD_and, BitVec.getLsbD_shiftLeft,
    BitVec.getLsbD_setWidth, BitVec.getLsbD_allOnes, BitVec.getLsbD_extractLsb', hshift,
    Nat.add_sub_cancel_left, hi]
  rcases lt_or_ge i 4 with hlt | hge
  · have h64 : 8 + i < 64 := by omega
    simp [hlt, h64]
  · simp [Nat.not_lt.mpr hge]

theorem irm_compare (h : SgiLoop affinity v stack memory writes k cpu)
    (hcode : HoldsProgram memory code (irmRoutine b)) :
    ∃ d, RoutineRuns b code 10 cpu 11 d ∧ SgiLoop affinity v stack memory writes k d ∧
      d.core.flags = subFlags (BitVec.ofNat 64 k) (BitVec.ofNat 64 (ownAffinity affinity)) := by
  let test : List SysInstr := [.cmpLsr 20 9 8]
  refine ⟨SysInstr.execAll (word code 10) test cpu, runsIn_straight test (h.holds hcode) rfl rfl,
    ⟨h.value, h.own, h.current, h.left, h.sp, h.mem, h.mpidr, h.sgi1r⟩, ?_⟩
  rw [← h.current, ← ownAffinity_eq, ← h.own]
  rfl

/-- The core that runs the routine is left out. -/
theorem irm_own (h : SgiLoop affinity v stack memory writes k cpu)
    (hcode : HoldsProgram memory code (irmRoutine b)) (hown : k = ownAffinity affinity) :
    ∃ d, RoutineRuns b code 10 cpu 16 d ∧ SgiLoop affinity v stack memory writes k d := by
  obtain ⟨d, hrun, hloop, hflags⟩ := irm_compare h hcode
  have htaken : Cond.eq.holds d.core.flags := by
    rw [hflags, Cond.eq_holds, hown]
  have hbranch : RoutineRuns b code 11 d 16 d := by
    have hfetch : (irmRoutine b)[11]? = some (.plain (.bCond .eq 5)) := rfl
    refine runsIn_instr (hloop.holds hcode) hfetch ?_ rfl
    rw [SysInstr.next, Instr.jump, if_pos htaken, word, BitVec.add_assoc]
    rfl
  exact ⟨d, hrun.trans hbranch, hloop⟩

theorem irm_other (h : SgiLoop affinity v stack memory writes k cpu)
    (hcode : HoldsProgram memory code (irmRoutine b)) (hk : k < 8)
    (hother : k ≠ ownAffinity affinity) :
    ∃ d, RoutineRuns b code 10 cpu 12 d ∧ SgiLoop affinity v stack memory writes k d := by
  obtain ⟨d, hrun, hloop, hflags⟩ := irm_compare h hcode
  have hlt : ownAffinity affinity < 16 := (affinity.extractLsb' 8 4).isLt
  have hnotTaken : ¬Cond.eq.holds d.core.flags := by
    rw [hflags, Cond.eq_holds]
    intro heq
    have hnat := congrArg BitVec.toNat heq
    rw [BitVec.toNat_ofNat, BitVec.toNat_ofNat, Nat.mod_eq_of_lt (by omega),
      Nat.mod_eq_of_lt (by omega)] at hnat
    exact hother hnat
  have hbranch : RoutineRuns b code 11 d 12 d := by
    have hfetch : (irmRoutine b)[11]? = some (.plain (.bCond .eq 5)) := rfl
    refine runsIn_instr (hloop.holds hcode) hfetch ?_ rfl
    rw [SysInstr.next, Instr.jump, if_neg hnotTaken]
    exact word_succ
  exact ⟨d, hrun.trans hbranch, hloop⟩

/-- The write for another core. -/
theorem irm_write (h : SgiLoop affinity v stack memory writes k cpu)
    (hcode : HoldsProgram memory code (irmRoutine b)) :
    ∃ d, RoutineRuns b code 12 cpu 16 d ∧
      SgiLoop affinity v stack memory (writes ++ [sgiValue v k]) k d := by
  let send : List SysInstr := [.lsl b.scratch 20 16, .plain (.orr .x b.source 22 b.scratch),
    .msrSgi1r b.source, .dsb]
  refine ⟨SysInstr.execAll (word code 12) send cpu,
    runsIn_straight send (h.holds hcode) rfl rfl, ?_⟩
  cases b <;> constructor <;>
    simp [send, h.value, h.own, h.current, h.left, h.sp, h.mem, h.mpidr, h.sgi1r, sgiValue]

/-- The next core, down to the branch back. -/
theorem irm_next (h : SgiLoop affinity v stack memory writes k cpu)
    (hcode : HoldsProgram memory code (irmRoutine b)) (hk : k < 8) :
    ∃ d, RoutineRuns b code 16 cpu 18 d ∧ SgiLoop affinity v stack memory writes (k + 1) d := by
  have hcount : ∀ k < 8, ((BitVec.ofNat 64 (8 - k) - 1).setWidth 32).setWidth 64 =
      BitVec.ofNat 64 (8 - (k + 1)) := by decide
  let advance : List SysInstr := [.plain (.addImm .x 20 20 1), .plain (.subImm .w 21 21 1)]
  refine ⟨SysInstr.execAll (word code 16) advance cpu, runsIn_straight advance (h.holds hcode) rfl rfl,
    ⟨h.value, h.own, ?_, ?_, h.sp, h.mem, h.mpidr, h.sgi1r⟩⟩
  · change cpu.core.x 20 + 1 = _
    rw [h.current, BitVec.ofNat_add]
    rfl
  · change ((cpu.core.x 21 - 1).setWidth 32).setWidth 64 = _
    rw [h.left, hcount k hk]

/-- A round of the loop. -/
theorem irm_round (h : SgiLoop affinity v stack memory writes k cpu)
    (hcode : HoldsProgram memory code (irmRoutine b)) (hk : k < 8) :
    ∃ d, RoutineRuns b code 10 cpu 18 d ∧
      SgiLoop affinity v stack memory
        (writes ++ if k = ownAffinity affinity then [] else [sgiValue v k]) (k + 1) d := by
  by_cases hown : k = ownAffinity affinity
  · obtain ⟨c, hskip, hloop⟩ := irm_own h hcode hown
    obtain ⟨d, hnext, hloop'⟩ := irm_next hloop hcode hk
    rw [if_pos hown, List.append_nil]
    exact ⟨d, hskip.trans hnext, hloop'⟩
  · obtain ⟨c₁, hother, hloop₁⟩ := irm_other h hcode hk hown
    obtain ⟨c₂, hwrite, hloop₂⟩ := irm_write hloop₁ hcode
    obtain ⟨d, hnext, hloop'⟩ := irm_next hloop₂ hcode hk
    rw [if_neg hown]
    exact ⟨d, hother.trans (hwrite.trans hnext), hloop'⟩

/-- The branch at the end of the loop. -/
theorem irm_again (h : SgiLoop affinity v stack memory writes k cpu)
    (hcode : HoldsProgram memory code (irmRoutine b)) (hk : k ≤ 8) :
    RoutineRuns b code 18 cpu (if k = 8 then 19 else 10) cpu := by
  have hzero : ∀ k ≤ 8, ((BitVec.ofNat 64 (8 - k)).setWidth 32).setWidth 64 = (0 : BitVec 64) ↔
      k = 8 := by decide
  have hfetch : (irmRoutine b)[18]? = some (.cbnz .w 21 (-8)) := rfl
  refine runsIn_instr (h.holds hcode) hfetch ?_ rfl
  have hleft : Size.w.narrow (cpu.core.read 21) = 0 ↔ k = 8 := by
    rw [← hzero k hk, ← h.left]
    rfl
  rw [SysInstr.next]
  by_cases hlast : k = 8
  · rw [if_pos hlast, if_pos (hleft.mpr hlast), word_succ]
  · rw [if_neg hlast, if_neg (mt hleft.mp hlast), word, BitVec.add_assoc]
    rfl

theorem irm_rounds {j : ℕ} (h : SgiLoop affinity v stack memory
      (writes ++ sgiWritesBelow affinity v k) k cpu)
    (hcode : HoldsProgram memory code (irmRoutine b)) (hj : k + (j + 1) = 8) :
    ∃ d, RoutineRuns b code 10 cpu 19 d ∧
      SgiLoop affinity v stack memory (writes ++ sgiWritesBelow affinity v 8) 8 d := by
  induction j generalizing k cpu with
  | zero =>
    obtain ⟨d, hround, hloop⟩ := irm_round h hcode (by omega)
    rw [List.append_assoc, ← sgiWritesBelow_succ] at hloop
    obtain rfl : k = 7 := by omega
    exact ⟨d, hround.trans (irm_again hloop hcode le_rfl), hloop⟩
  | succ j ih =>
    obtain ⟨c, hround, hloop⟩ := irm_round h hcode (by omega)
    rw [List.append_assoc, ← sgiWritesBelow_succ] at hloop
    have hagain := irm_again hloop hcode (by omega)
    rw [if_neg (by omega)] at hagain
    obtain ⟨d, hrounds, hlast⟩ := ih hloop (by omega)
    exact ⟨d, hround.trans (hagain.trans hrounds), hlast⟩

/-- From the end of the loop, or the single write, to the return. -/
theorem irm_return {link frame : BitVec 64} (hcode : HoldsProgram cpu.core.mem code (irmRoutine b))
    (hframe : cpu.core.mem.read64 cpu.core.sp = frame)
    (hlink : cpu.core.mem.read64 (cpu.core.sp + 8) = link) :
    ∃ d, RunsIn (programAddresses code (irmRoutine b)) ⟨word code 21, cpu⟩ ⟨link, d⟩ ∧
      d.sgi1r = cpu.sgi1r ∧ d.core.sp = cpu.core.sp + 16 ∧ d.core.x 29 = frame := by
  let load : List SysInstr := [.ldpPost 29 30 31 16]
  let d := SysInstr.execAll (word code 21) load cpu
  have hload : RoutineRuns b code 21 cpu 22 d := runsIn_straight load hcode rfl rfl
  have hfetch : (irmRoutine b)[22]? = some (.ret 30) := rfl
  have hcode : HoldsProgram d.core.mem code (irmRoutine b) := hcode
  have hreturn : RunsIn (programAddresses code (irmRoutine b)) ⟨word code 22, d⟩ ⟨link, d⟩ :=
    runsIn_instr hcode hfetch hlink rfl
  exact ⟨d, hload.trans hreturn, rfl, rfl, hframe⟩

/-- The frame of the routine on the stack. -/
def framed (cpu : Processor) : Arm64.Memory :=
  (cpu.core.mem.write (cpu.core.sp - 16) 8 (cpu.core.x 29)).write (cpu.core.sp - 8) 8
    (cpu.core.x 30)

theorem framed_read64 (cpu : Processor) :
    (framed cpu).read64 (cpu.core.sp - 16) = cpu.core.x 29 ∧
      (framed cpu).read64 (cpu.core.sp - 16 + 8) = cpu.core.x 30 := by
  have hsecond : cpu.core.sp - 16 + 8 = cpu.core.sp - 8 := by grind
  constructor
  · rw [← @Memory.read64_write_self cpu.core.mem (cpu.core.sp - 16) (cpu.core.x 29)]
    refine Memory.read64_congr fun k hk => Memory.write_of_le ?_
    bv_omega
  · rw [hsecond]
    exact Memory.read64_write_self

theorem irm_frame (cpu : Processor) (pc : Address) :
    ∃ c, (SysInstr.stpPre 29 30 31 (-16)).exec pc cpu = c ∧ c.core.mem = framed cpu ∧
      c.core.sp = cpu.core.sp - 16 ∧ c.core.x = cpu.core.x ∧ c.mpidr = cpu.mpidr ∧
      c.sgi1r = cpu.sgi1r := by
  have hfirst : cpu.core.sp + -16 = cpu.core.sp - 16 := by grind
  have hsecond : cpu.core.sp - 16 + 8 = cpu.core.sp - 8 := by grind
  refine ⟨_, rfl, ?_, ?_, ?_, SysInstr.exec_mpidr, SysInstr.exec_sgi1r (by rintro _ ⟨⟩)⟩
  · simp only [SysInstr.exec, Core.readSp, if_pos, hfirst, hsecond]
    rfl
  · simp only [SysInstr.exec, Core.readSp, if_pos, hfirst]
    rfl
  · simp only [SysInstr.exec, Core.writeSp, if_pos, Core.withMem]

theorem irm_enter (hcode : HoldsProgram cpu.core.mem code (irmRoutine b))
    (hframed : HoldsProgram (framed cpu) code (irmRoutine b)) :
    ∃ d, RoutineRuns b code 0 cpu 2 d ∧
      d.core.mem = framed cpu ∧ d.core.sp = cpu.core.sp - 16 ∧ d.mpidr = cpu.mpidr ∧
      d.sgi1r = cpu.sgi1r ∧ d.core.x b.source = cpu.core.x b.source := by
  have hfetch : (irmRoutine b)[0]? = some (.stpPre 29 30 31 (-16)) := rfl
  obtain ⟨c, hexec, hmem, hsp, hx, hmpidr, hsgi1r⟩ := irm_frame cpu (word code 0)
  have hstore : RoutineRuns b code 0 cpu 1 c := runsIn_instr hcode hfetch word_succ hexec
  have hcode : HoldsProgram c.core.mem code (irmRoutine b) := hmem.symm ▸ hframed
  let point : List SysInstr := [.plain (.addImm .x 29 31 0)]
  have hpoint : RoutineRuns b code 1 c 2 (SysInstr.execAll (word code 1) point c) :=
    runsIn_straight point hcode rfl rfl
  refine ⟨_, hstore.trans hpoint, hmem, hsp, hmpidr, hsgi1r, ?_⟩
  rw [← hx]
  cases b <;> rfl

theorem IrmBlock.read_source (b : IrmBlock) (c : Core) : c.read b.source = c.x b.source := by
  cases b <;> rfl

/-- A write for all cores but this one. -/
theorem irm_broadcast (hcode : HoldsProgram cpu.core.mem code (irmRoutine b))
    (hflag : (cpu.core.x b.source).getLsbD 40) :
    ∃ d, RoutineRuns b code 2 cpu 21 d ∧ d.core.mem = cpu.core.mem ∧ d.core.sp = cpu.core.sp ∧
      d.sgi1r = cpu.sgi1r ++ sgiWritesBelow cpu.mpidr (cpu.core.x b.source) 8 := by
  have hfetch : (irmRoutine b)[2]? = some (.tbz b.source 40 18) := rfl
  have htest : RoutineRuns b code 2 cpu 3 cpu := by
    refine runsIn_instr hcode hfetch ?_ rfl
    rw [SysInstr.next, b.read_source, if_pos hflag, word_succ]
  obtain ⟨c, hsetup, hfirst⟩ := irm_setup hcode
  have hstart : SgiLoop cpu.mpidr (cpu.core.x b.source) cpu.core.sp cpu.core.mem
      (cpu.sgi1r ++ sgiWritesBelow cpu.mpidr (cpu.core.x b.source) 0) 0 c := by
    rw [show sgiWritesBelow cpu.mpidr (cpu.core.x b.source) 0 = [] from rfl, List.append_nil]
    exact hfirst
  obtain ⟨d, hrounds, hloop⟩ := irm_rounds hstart hcode (show 0 + (7 + 1) = 8 from rfl)
  have hjump : (irmRoutine b)[19]? = some (.plain (.b 2)) := rfl
  have hover : RoutineRuns b code 19 d 21 d := by
    refine runsIn_instr (hloop.holds hcode) hjump ?_ rfl
    rw [SysInstr.next, Instr.jump, word, BitVec.add_assoc]
    rfl
  exact ⟨d, htest.trans (hsetup.trans (hrounds.trans hover)), hloop.mem, hloop.sp, hloop.sgi1r⟩

/-- Any other write is made as it is. -/
theorem irm_single (hcode : HoldsProgram cpu.core.mem code (irmRoutine b))
    (hflag : ¬(cpu.core.x b.source).getLsbD 40) :
    ∃ d, RoutineRuns b code 2 cpu 21 d ∧ d.core.mem = cpu.core.mem ∧ d.core.sp = cpu.core.sp ∧
      d.sgi1r = cpu.sgi1r ++ [cpu.core.x b.source] := by
  have hfetch : (irmRoutine b)[2]? = some (.tbz b.source 40 18) := rfl
  have htest : RoutineRuns b code 2 cpu 20 cpu := by
    refine runsIn_instr hcode hfetch ?_ rfl
    rw [SysInstr.next, b.read_source, if_neg hflag, word, BitVec.add_assoc]
    rfl
  let send : List SysInstr := [.msrSgi1r b.source]
  have hsend : RoutineRuns b code 20 cpu 21 (SysInstr.execAll (word code 20) send cpu) :=
    runsIn_straight send hcode rfl rfl
  refine ⟨_, htest.trans hsend, rfl, rfl, ?_⟩
  rw [← b.read_source]
  rfl

theorem irm_writes (hcode : HoldsProgram cpu.core.mem code (irmRoutine b)) :
    ∃ d, RoutineRuns b code 2 cpu 21 d ∧ d.core.mem = cpu.core.mem ∧ d.core.sp = cpu.core.sp ∧
      d.sgi1r = cpu.sgi1r ++ sgiWrites cpu.mpidr (cpu.core.x b.source) := by
  rw [sgiWrites]
  split
  next hflag => exact irm_broadcast hcode hflag
  next hflag => exact irm_single hcode hflag

/-- The routine from its first instruction to its return. -/
theorem irm_routine (hcode : HoldsProgram cpu.core.mem code (irmRoutine b))
    (hframed : HoldsProgram (framed cpu) code (irmRoutine b)) :
    ∃ d, RunsIn (programAddresses code (irmRoutine b)) ⟨code, cpu⟩ ⟨cpu.core.x 30, d⟩ ∧
      d.sgi1r = cpu.sgi1r ++ sgiWrites cpu.mpidr (cpu.core.x b.source) ∧
      d.core.sp = cpu.core.sp ∧ d.core.x 29 = cpu.core.x 29 := by
  obtain ⟨c, henter, hmem, hsp, hmpidr, hsgi1r, hsource⟩ := irm_enter hcode hframed
  rw [RoutineRuns, word_zero] at henter
  have hcode₁ : HoldsProgram c.core.mem code (irmRoutine b) := hmem.symm ▸ hframed
  obtain ⟨c', hrun, hmem', hsp', hwrites⟩ := irm_writes hcode₁
  have hcode₂ : HoldsProgram c'.core.mem code (irmRoutine b) := hmem'.symm ▸ hcode₁
  obtain ⟨hframe, hlink⟩ := framed_read64 cpu
  rw [← hmem, ← hmem', ← hsp, ← hsp'] at hframe hlink
  obtain ⟨d, hreturn, hlog, hback, hx⟩ := irm_return hcode₂ hframe hlink
  refine ⟨d, henter.trans (hrun.trans hreturn), ?_, ?_, hx⟩
  · rw [hlog, hwrites, hsgi1r, hmpidr, hsource]
  · rw [hback, hsp', hsp]
    grind

/-! ## The call -/

/-- The stack bytes of the routine. -/
def stackBytes (sp : BitVec 64) : Set Address := range (sp - 16) 16

/-- Where the patched instruction, the routine and the stack lie. -/
structure IrmPlaced (gicInstr code sp : Address) : Prop where
  gicAligned : 4 ∣ gicInstr.toNat
  codeAligned : 4 ∣ code.toNat
  apart : Disjoint (range gicInstr 4) (range code 0x5C)
  stackCode : Disjoint (stackBytes sp) (range code 0x5C)
  stackInstr : Disjoint (stackBytes sp) (range gicInstr 4)

/-- The instruction calls the routine, which only executes its own instructions, writes what
stands for the write of the source register, and comes back with the stack as it was. -/
def EmulatesIrm (b : IrmBlock) (gicInstr code : Address) (cpu : Processor) : Prop :=
  ∃ called d, SysState.step ⟨gicInstr, cpu⟩ = some called ∧
    RunsIn (programAddresses code (irmRoutine b)) called ⟨gicInstr + 4, d⟩ ∧
    d.sgi1r = cpu.sgi1r ++ sgiWrites cpu.mpidr (cpu.core.x b.source) ∧
    d.core.sp = cpu.core.sp ∧ d.core.x 29 = cpu.core.x 29

theorem decodeSys_encodeBl {distance : BitVec 64} (haligned : 4 ∣ distance.toNat)
    (hlow : -2 ^ 27 ≤ distance.toInt) (hhigh : distance.toInt < 2 ^ 27) :
    decodeSys (encodeBl distance) = some (.bl distance) := by
  have hdsb : encodeBl distance ≠ 0xD5033F9F := by
    intro h
    have hopcode := @opcode_encodeBl distance
    rw [h] at hopcode
    exact absurd hopcode (by decide)
  have hopcode := @opcode_encodeBl distance
  have hdistance := signExtend_encodeBl haligned hlow hhigh
  unfold decodeSys
  dsimp only
  rw [if_neg hdsb, if_pos hopcode, hdistance]

/-- The routine lies where the block has stored it. -/
theorem holdsProgram_irmStored (b : IrmBlock) (mem : Arm64.Memory)
    (gicInstr realEstateFunc : Address) :
    HoldsProgram (irmStored b.patches mem gicInstr realEstateFunc) (codeLocation realEstateFunc)
      (irmRoutine b) := by
  intro i instr hfetch
  have hmap := congrArg (·[i]?) (decodeSys_routineWords b)
  simp only [List.getElem?_map, hfetch, Option.map_some] at hmap
  obtain ⟨w, hw, hdecode⟩ := Option.map_eq_some_iff.mp hmap
  rw [read32_irmStored_routine b.length_patches hw, hdecode]

/-- The frame lies outside of the routine. -/
theorem holdsProgram_framed (hcode : HoldsProgram cpu.core.mem code (irmRoutine b))
    (hapart : Disjoint (stackBytes cpu.core.sp) (range code 0x5C)) :
    HoldsProgram (framed cpu) code (irmRoutine b) := by
  have hfit : 4 * (irmRoutine b).length < 2 ^ 64 := show 4 * 23 < 2 ^ 64 by decide
  refine hcode.congr hfit fun a ha => ?_
  have hout : 16 ≤ (a - (cpu.core.sp - 16)).toNat :=
    Nat.not_lt.mp (Set.disjoint_right.mp hapart ha)
  refine (Memory.write_of_le ?_).trans (Memory.write_of_le (by omega))
  bv_omega

/-- The processor when the routine starts. -/
def called (gicInstr : Address) (cpu : Processor) : Processor :=
  { cpu with core := cpu.core.write 30 (gicInstr + 4) }

theorem emulatesIrm {gicInstr : Address} (hplaced : IrmPlaced gicInstr code cpu.core.sp)
    (hlow : -2 ^ 27 ≤ (code - gicInstr).toInt) (hhigh : (code - gicInstr).toInt < 2 ^ 27)
    (hinstr : cpu.core.mem.read32 gicInstr = arm64BranchLocationInstruction gicInstr code)
    (hcode : HoldsProgram cpu.core.mem code (irmRoutine b)) : EmulatesIrm b gicInstr code cpu := by
  have haligned : 4 ∣ (code - gicInstr).toNat := by
    have hcodeAligned := hplaced.codeAligned
    have hgicAligned := hplaced.gicAligned
    bv_omega
  have hcall : SysState.step ⟨gicInstr, cpu⟩ = some ⟨code, called gicInstr cpu⟩ := by
    have hnext : gicInstr + (code - gicInstr) = code := by grind
    rw [SysState.step, hinstr, arm64BranchLocationInstruction_eq,
      decodeSys_encodeBl haligned hlow hhigh, Option.map_some, SysInstr.next, hnext]
    rfl
  obtain ⟨d, hrun, hwrites, hsp, hx⟩ := @irm_routine b code (called gicInstr cpu) hcode
    (holdsProgram_framed hcode hplaced.stackCode)
  refine ⟨_, d, hcall, hrun, ?_, hsp, hx⟩
  rw [hwrites]
  cases b <;> rfl

/-- The block stores the branch and the routine, and a processor that finds them in its memory
emulates the flag. The branch reaches from 128 MiB behind it up to 128 MiB in front of it. -/
theorem irmBlock_emulates (b : IrmBlock) (c : Core) (cpu : Processor)
    (hplaced : IrmPlaced (c.x 4) (codeLocation (c.x 3)) cpu.core.sp)
    (hlow : -2 ^ 27 ≤ (codeLocation (c.x 3) - c.x 4).toInt)
    (hhigh : (codeLocation (c.x 3) - c.x 4).toInt < 2 ^ 27)
    (hmem : ∀ a ∈ range (c.x 4) 4 ∪ range (codeLocation (c.x 3)) 0x5C,
      cpu.core.mem a = irmStored b.patches c.mem (c.x 4) (c.x 3) a) :
    (∃ c', Runs b.program ∅ 37 c b.program.length c' ∧
        c'.mem = irmStored b.patches c.mem (c.x 4) (c.x 3)) ∧
      EmulatesIrm b (c.x 4) (codeLocation (c.x 3)) cpu := by
  constructor
  · obtain ⟨c', hstores, hstored⟩ := @runs_irmStores ∅ c _ _ b.patches rfl rfl b.length_patches
      fun _ ha => ha.elim
    have hlength : b.program.length = 104 := by cases b <;> rfl
    rw [hlength, b.program_eq]
    exact ⟨c', hstores.prepend (irmSearch b.msr), hstored⟩
  · have hread : cpu.core.mem.read32 (c.x 4) =
        (irmStored b.patches c.mem (c.x 4) (c.x 3)).read32 (c.x 4) :=
      Memory.read32_congr fun k hk => hmem _ (.inl (add_mem_range hk (by omega)))
    have hfit : 4 * (irmRoutine b).length < 2 ^ 64 := show 4 * 23 < 2 ^ 64 by decide
    have hcode := (holdsProgram_irmStored b c.mem (c.x 4) (c.x 3)).congr hfit
      fun a ha => hmem a (.inr ha)
    exact emulatesIrm hplaced hlow hhigh
      (hread.trans (read32_irmStored_gicInstr b.length_patches hplaced.apart)) hcode

/-- A core that has found the two places. -/
def irmFound (gicInstr realEstateFunc : Address) : Core :=
  ⟨fun r => if r = 4 then gicInstr else if r = 3 then realEstateFunc else 0, 0,
    ⟨false, false, false, false⟩, fun _ => 0⟩

/-- A processor with what is stored then, in front of a broadcast from `x8`. -/
def irmCaller (gicInstr realEstateFunc : Address) : Processor :=
  ⟨⟨fun r => if r = 8 then 0x10000000001 else 0, 0x3010, ⟨false, false, false, false⟩,
    irmStored irmX8Patches (fun _ => 0) gicInstr realEstateFunc⟩, 0x80000300, []⟩

theorem irmX8_emulates_near :
    (∃ c', Runs irmX8Program ∅ 37 (irmFound 0x1000 0x20A8) 104 c' ∧
        c'.mem = irmStored irmX8Patches (fun _ => 0) 0x1000 0x20A8) ∧
      EmulatesIrm .irmX8 0x1000 0x2000 (irmCaller 0x1000 0x20A8) := by
  refine irmBlock_emulates .irmX8 (irmFound 0x1000 0x20A8) (irmCaller 0x1000 0x20A8) ?_
    (by decide) (by decide) (fun _ _ => rfl)
  exact ⟨by decide, by decide, disjoint_range (by decide) (by decide),
    disjoint_range (by decide) (by decide), disjoint_range (by decide) (by decide)⟩

/-- A routine that starts 128 MiB behind the instruction is not reached: the branch goes 128 MiB
back. -/
theorem farRoutine_not_emulatesIrm :
    ¬∀ (b : IrmBlock) (c : Core) (cpu : Processor),
      IrmPlaced (c.x 4) (codeLocation (c.x 3)) cpu.core.sp →
      -2 ^ 27 ≤ (codeLocation (c.x 3) - c.x 4).toInt →
      (codeLocation (c.x 3) - c.x 4).toInt ≤ 2 ^ 27 →
      (∀ a ∈ range (c.x 4) 4 ∪ range (codeLocation (c.x 3)) 0x5C,
        cpu.core.mem a = irmStored b.patches c.mem (c.x 4) (c.x 3) a) →
      EmulatesIrm b (c.x 4) (codeLocation (c.x 3)) cpu := by
  intro h
  have hplaced : IrmPlaced 0x10000000 0x18000000 0x3010 :=
    ⟨by decide, by decide, disjoint_range (by decide) (by decide),
      disjoint_range (by decide) (by decide), disjoint_range (by decide) (by decide)⟩
  obtain ⟨called, d, hstep, hrun, -⟩ : EmulatesIrm .irmX8 0x10000000 0x18000000
      (irmCaller 0x10000000 0x180000A8) :=
    h .irmX8 (irmFound 0x10000000 0x180000A8) (irmCaller 0x10000000 0x180000A8) hplaced
      (by decide) (by decide) (fun _ _ => rfl)
  have hinstr : (irmCaller 0x10000000 0x180000A8).core.mem.read32 0x10000000 = 0x96000000 :=
    read32_irmStored_gicInstr rfl hplaced.apart
  have hdecode : decodeSys 0x96000000 = some (.bl (-0x8000000)) := by decide
  rw [SysState.step, hinstr, hdecode] at hstep
  have hpc : called.pc = 0x8000000 := by
    rw [← Option.some_inj.mp hstep]
    rfl
  cases hrun with
  | refl =>
    have hne : (0x10000000 + 4 : Address) ≠ 0x8000000 := by decide
    exact absurd hpc hne
  | step hin _ _ =>
    obtain ⟨i, hi, heq⟩ := hin
    have hlt : i < 23 := hi
    rw [hpc, word] at heq
    bv_omega

end ProjectMu
