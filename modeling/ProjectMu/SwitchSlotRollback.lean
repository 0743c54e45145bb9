import ProjectMu.GptCrash
import ProjectMu.SwitchSlot

/-!
# A rollback cut short

A rollback opens the backup copy first, like a commit. A disk whose commit stopped in the
primary copy has its only valid table in the backup copy at that point, so a rollback that
stops in the backup copy of the same disk leaves no valid table. This is the only way to
lose both copies.
-/

namespace ProjectMu

open ByteCodec ByteRange CrashLogic TwoCopy

/-- What is left of a stop where a status is only reported. -/
def dropStatus : Option Stop → Option Stop
  | some (.status _) => none
  | stop => stop

namespace UpdatePlan

variable (plan : UpdatePlan)

def commitStop (disk : GptDisk) : Option Stop := (plan.commit disk.blockIo.device).stop

def commitStage (disk : GptDisk) : Stage := (plan.commit disk.blockIo.device).stage

def rollbackStop (disk : GptDisk) : Option Stop :=
  dropStatus (plan.rollback disk.blockIo.device).stop

def rollbackStage (disk : GptDisk) : Stage := (plan.rollback disk.blockIo.device).stage

/-- Whether the update reaches its rollback: after a status of the commit, or after a
complete commit whose boot LU could not be set. -/
def rollsBack (disks : List GptDisk) : Bool :=
  match runStop plan.commitStop disks with
  | some (.status _) => true
  | some _ => false
  | none => plan.locateCardInfo.isSome || plan.setBootLu.isSome

/-- Whether the update runs to its end: all disks are written and the boot LU is set. -/
def succeeds (disks : List GptDisk) : Bool :=
  (runStop plan.commitStop disks).isNone &&
    !(plan.locateCardInfo.isSome || plan.setBootLu.isSome)

theorem succeeds_of_rollsBack {disks : List GptDisk} (h : plan.rollsBack disks = true) :
    plan.succeeds disks = false := by
  unfold rollsBack at h
  unfold succeeds
  split at h
  · rename_i hstop
    rw [hstop]
    rfl
  · cases h
  · rw [h, Bool.not_true, Bool.and_false]

/-- The commit of a disk stops in its primary copy, and the rollback in its backup copy. -/
def LosesBoth (disks : List GptDisk) (disk : GptDisk) : Prop :=
  loopStage plan.commitStop plan.commitStage disks disk = .primaryOpen ∧
    plan.rollsBack disks = true ∧
    loopStage plan.rollbackStop plan.rollbackStage disks disk = .backupOpen

/-- The same answers with other bytes in the ranges of failed writes. -/
def retear (torn torn' : ℕ → CommitCall → ℕ → Byte) : UpdatePlan :=
  { plan with
    commit := fun device => ⟨(plan.commit device).outcome, torn device⟩
    rollback := fun device => ⟨(plan.rollback device).outcome, torn' device⟩ }

/-- The states of the devices after the commit, wherever it stopped. -/
def committed (disks : List GptDisk) : ℕ → State TableVersion :=
  runStates plan.commitStop plan.commitStage .switched disks (fun _ => State.both .original)

/-- The final state of both copies of a disk. -/
def finalState (disks : List GptDisk) (disk : GptDisk) : State TableVersion :=
  update .original (update .switched (State.both .original)
    (loopStage plan.commitStop plan.commitStage disks disk))
    (if plan.rollsBack disks then loopStage plan.rollbackStop plan.rollbackStage disks disk
      else .untouched)

theorem finalState_recoverable_iff (disks : List GptDisk) (disk : GptDisk) :
    (plan.finalState disks disk).Recoverable ↔ ¬ plan.LosesBoth disks disk := by
  unfold finalState LosesBoth
  rw [update_update_recoverable_iff]
  cases plan.rollsBack disks <;> simp

end UpdatePlan

variable (crc32 : List Byte → BitVec 32)

section Update

variable {w : World} {loaded disks : List GptDisk} (h : Switched crc32 w loaded disks)
  {exact : Prop} {plan : UpdatePlan}
  (hcommit : ∀ disk ∈ disks, exact → Disruptive crc32 (plan.commit disk.blockIo.device) disk)
  (hrollback : ∀ disk ∈ disks, exact → Disruptive crc32 (plan.rollback disk.blockIo.device) disk)

/-- A rollback step that ignores its status. -/
theorem triple_ignoreStatus {P Q : World → Prop} {stop : Option Stop} {c : EfiM Unit}
    (hc : Triple P c (fun _ w => stop = none ∧ Q w) (fun e w => stop = some e ∧ Q w)) :
    Triple P (ignoreStatus c) (fun _ w => dropStatus stop = none ∧ Q w)
      (fun e w => dropStatus stop = some e ∧ Q w) := by
  intro w hw
  have hrun := hc w hw
  unfold ignoreStatus
  rw [exec_ofFun]
  rcases hexec : exec c w with ⟨res, w'⟩
  rw [hexec] at hrun
  cases res with
  | ok a =>
    obtain ⟨rfl, hq⟩ := hrun
    exact ⟨rfl, hq⟩
  | error e =>
    obtain ⟨rfl, hq⟩ := hrun
    cases e with
    | status s => exact ⟨rfl, hq⟩
    | powerLoss => exact ⟨rfl, hq⟩
    | awaitingKey => exact ⟨rfl, hq⟩

/-- A step with a rollback: a status is rolled back, any other stop ends the update. -/
theorem triple_orRollback {P Q S F : World → Prop} {R : Stop → World → Prop}
    {c rollback : EfiM Unit} (hc : Triple P c (fun _ => Q) R)
    (hstatus : ∀ e w, R (.status e) w → S w)
    (hother : ∀ stop w, (∀ e, stop ≠ .status e) → R stop w → F w)
    (hr : Triple S rollback (fun _ => F) (fun _ => F)) :
    Triple P (orRollback c rollback) (fun _ => Q) (fun _ => F) := by
  intro w hw
  have hrun := hc w hw
  unfold orRollback
  rw [exec_ofFun]
  rcases hexec : exec c w with ⟨res, w'⟩
  rw [hexec] at hrun
  cases res with
  | ok a => exact hrun
  | error stop =>
    cases stop with
    | status e =>
      have hback := hr w' (hstatus e w' hrun)
      dsimp only
      rcases hexec' : exec rollback w' with ⟨res', w''⟩
      rw [hexec'] at hback
      cases res' with
      | ok a => exact hback
      | error e' => exact hback
    | powerLoss => exact hother .powerLoss w' (fun e => nofun) hrun
    | awaitingKey => exact hother .awaitingKey w' (fun e => nofun) hrun

theorem triple_setUfsBootLu {s : ℕ → State TableVersion} (targetSlot : AbSlot) :
    Triple (RepresentsAll crc32 exact disks s) (setUfsBootLu plan targetSlot)
      (fun _ w => (plan.locateCardInfo.isSome || plan.setBootLu.isSome) = false ∧
        RepresentsAll crc32 exact disks s w)
      (fun stop w => (∃ e, stop = .status e) ∧
        (plan.locateCardInfo.isSome || plan.setBootLu.isSome) = true ∧
        RepresentsAll crc32 exact disks s w) := by
  have hkeep {w w' : World} (he : w'.devices = w.devices)
      (hw : RepresentsAll crc32 exact disks s w) : RepresentsAll crc32 exact disks s w' :=
    fun disk hd => represents_of_devices_eq crc32 (congrFun he _) (hw disk hd)
  unfold setUfsBootLu
  cases hl : plan.locateCardInfo with
  | some e => exact triple_throw (fun w hw => ⟨⟨e, rfl⟩, rfl, hw⟩)
  | none =>
    intro w hw
    dsimp only
    rw [exec_ofFun]
    cases hb : plan.setBootLu with
    | some e => exact ⟨⟨e, rfl⟩, rfl, hkeep rfl hw⟩
    | none => exact ⟨rfl, hkeep rfl hw⟩

include h hrollback

theorem triple_rollbackModifiedGptDisks (s : ℕ → State TableVersion) :
    Triple (RepresentsAll crc32 exact disks s)
      (rollbackModifiedGptDisks crc32 plan.rollback disks)
      (fun _ w' => runStop plan.rollbackStop disks = none ∧ RepresentsAll crc32 exact disks
        (runStates plan.rollbackStop plan.rollbackStage .original disks s) w')
      (fun e w' => runStop plan.rollbackStop disks = some e ∧ RepresentsAll crc32 exact disks
        (runStates plan.rollbackStop plan.rollbackStage .original disks s) w') :=
  triple_forModified crc32 h.distinct (List.Subset.refl disks)
    (fun disk hd s => triple_ignoreStatus
      (commitGptDisk_refines crc32 (h.committable hd) (hrollback disk hd) true s))
    (fun disk => touches_ignoreStatus
      (touches_commitGptDisk crc32 (plan.rollback disk.blockIo.device) true rfl)) s

/-- Every disk is in the state that the plan leaves it in. -/
def ReachesFinal (exact : Prop) (plan : UpdatePlan) (disks : List GptDisk) (w' : World) : Prop :=
  ∀ disk ∈ disks, Represents crc32 exact w' disk (plan.finalState disks disk)

omit hrollback in
theorem reachesFinal_of_committed {w' : World} (hno : plan.rollsBack disks = false)
    (hw : RepresentsAll crc32 exact disks (plan.committed disks) w') :
    ReachesFinal crc32 exact plan disks w' := by
  intro disk hd
  have hdisk := hw disk hd
  rw [UpdatePlan.committed, runStates_apply _ _ _ _ h.distinct hd] at hdisk
  unfold UpdatePlan.finalState
  rw [hno]
  exact hdisk

/-- A rollback after the commit reaches the final state, wherever it stops. -/
theorem triple_rollback_final :
    Triple (fun w' => plan.rollsBack disks = true ∧
        RepresentsAll crc32 exact disks (plan.committed disks) w')
      (rollbackModifiedGptDisks crc32 plan.rollback disks)
      (fun _ w' => plan.succeeds disks = false ∧ ReachesFinal crc32 exact plan disks w')
      (fun _ w' => plan.succeeds disks = false ∧ ReachesFinal crc32 exact plan disks w') := by
  intro w' hw
  have hfails := plan.succeeds_of_rollsBack hw.1
  have hrestored {w'' : World} (hrep : RepresentsAll crc32 exact disks (runStates plan.rollbackStop
      plan.rollbackStage .original disks (plan.committed disks)) w'') :
      ReachesFinal crc32 exact plan disks w'' := by
    intro disk hd
    have hdisk := hrep disk hd
    rw [runStates_apply _ _ _ _ h.distinct hd, UpdatePlan.committed,
      runStates_apply _ _ _ _ h.distinct hd] at hdisk
    unfold UpdatePlan.finalState
    rw [hw.1]
    exact hdisk
  have hrun := triple_rollbackModifiedGptDisks crc32 h hrollback (plan.committed disks) w' hw.2
  rcases hexec : exec (rollbackModifiedGptDisks crc32 plan.rollback disks) w' with ⟨res, w''⟩
  rw [hexec] at hrun
  cases res with
  | ok a => exact ⟨hfails, hrestored hrun.2⟩
  | error e => exact ⟨hfails, hrestored hrun.2⟩

include hcommit in
theorem triple_commit_final :
    Triple (RepresentsAll crc32 exact disks (fun _ => State.both .original))
      (orRollback (commitModifiedGptDisks crc32 plan.commit disks)
        (rollbackModifiedGptDisks crc32 plan.rollback disks))
      (fun _ w' => runStop plan.commitStop disks = none ∧
        RepresentsAll crc32 exact disks (plan.committed disks) w')
      (fun _ w' => plan.succeeds disks = false ∧ ReachesFinal crc32 exact plan disks w') := by
  have hforward : Triple (RepresentsAll crc32 exact disks (fun _ => State.both .original))
      (commitModifiedGptDisks crc32 plan.commit disks)
      (fun _ w' => runStop plan.commitStop disks = none ∧
        RepresentsAll crc32 exact disks (plan.committed disks) w')
      (fun e w' => runStop plan.commitStop disks = some e ∧
        RepresentsAll crc32 exact disks (plan.committed disks) w') :=
    triple_commitModifiedGptDisks crc32 h plan.commit hcommit _
  refine triple_orRollback hforward ?_ ?_ (triple_rollback_final crc32 h hrollback)
  · intro e w' hw
    exact ⟨by simp only [UpdatePlan.rollsBack, hw.1], hw.2⟩
  · intro stop w' hne hw
    refine ⟨by simp [UpdatePlan.succeeds, hw.1], reachesFinal_of_committed crc32 h ?_ hw.2⟩
    cases stop with
    | status e => exact absurd rfl (hne e)
    | powerLoss => simp only [UpdatePlan.rollsBack, hw.1]
    | awaitingKey => simp only [UpdatePlan.rollsBack, hw.1]

/-- After a complete commit the boot LU decides whether the update succeeds. -/
theorem triple_bootLu_final (targetSlot : AbSlot) :
    Triple (fun w' => runStop plan.commitStop disks = none ∧
        RepresentsAll crc32 exact disks (plan.committed disks) w')
      (orRollback (setUfsBootLu plan targetSlot)
        (rollbackModifiedGptDisks crc32 plan.rollback disks))
      (fun _ w' => plan.succeeds disks = true ∧ ReachesFinal crc32 exact plan disks w')
      (fun _ w' => plan.succeeds disks = false ∧ ReachesFinal crc32 exact plan disks w') := by
  intro w' hw'
  have hrolls : plan.rollsBack disks =
      (plan.locateCardInfo.isSome || plan.setBootLu.isSome) := by
    simp only [UpdatePlan.rollsBack, hw'.1]
  have hboot := triple_orRollback (triple_setUfsBootLu crc32 targetSlot)
    (fun e w'' hw => ⟨hrolls.trans hw.2.1, hw.2.2⟩)
    (fun stop w'' hne hw => absurd hw.1 (fun hex => hex.elim (fun e he => hne e he)))
    (triple_rollback_final crc32 h hrollback)
  have hrun := hboot w' hw'.2
  rcases hexec : exec (orRollback (setUfsBootLu plan targetSlot)
    (rollbackModifiedGptDisks crc32 plan.rollback disks)) w' with ⟨res, w''⟩
  rw [hexec] at hrun
  cases res with
  | ok a =>
    exact ⟨by simp [UpdatePlan.succeeds, hw'.1, hrun.1],
      reachesFinal_of_committed crc32 h (hrolls.trans hrun.1) hrun.2⟩
  | error e => exact hrun

include hcommit

/-- The end of an update, wherever it stops, is `finalState` on every disk. -/
theorem triple_updateStorages (targetSlot : AbSlot) :
    Triple (RepresentsAll crc32 exact disks (fun _ => State.both .original))
      (updateStorages crc32 plan targetSlot disks)
      (fun _ w' => plan.succeeds disks = true ∧ ReachesFinal crc32 exact plan disks w')
      (fun _ w' => plan.succeeds disks = false ∧ ReachesFinal crc32 exact plan disks w') :=
  triple_bind (triple_commit_final crc32 h hcommit hrollback)
    (fun _ => triple_bootLu_final crc32 h hrollback targetSlot)

theorem updateStorages_final (targetSlot : AbSlot)
    (hw : RepresentsAll crc32 exact disks (fun _ => State.both .original) w) :
    ∀ disk ∈ disks, Represents crc32 exact
      (exec (updateStorages crc32 plan targetSlot disks) w).2 disk (plan.finalState disks disk) := by
  have hrun := triple_updateStorages crc32 h hcommit hrollback targetSlot
  exact (hrun.conseq (fun _ hw => hw) (fun _ _ hw => hw.2) (fun _ _ hw => hw.2)).final hw

end Update

section Torn

variable {disk : GptDisk}

theorem exists_other_byte (x y : Byte) : ∃ c : Byte, c ≠ x ∧ c ≠ y := by
  by_contra hno
  push Not at hno
  have h0 := hno 0
  have h1 := hno 1
  have h2 := hno 2
  grind

theorem read_const (c : Byte) (off n : ℕ) :
    Store.read (fun _ => c) off n = List.replicate n c := by
  rw [Store.read, List.map_const', List.length_range]

/-- Constant bytes destroy both versions of an entry array that starts with other ones, and
zeros destroy every header. -/
theorem disruptive_of_const (h : disk.Committable) {plan : CallPlan} (c : Side → Byte)
    (halloc : ∀ side, plan.outcome (.block side) = .success)
    (hentries : ∀ side, plan.torn (.entries side) = fun _ => c side)
    (hheader : ∀ side, plan.torn (.header side) = fun _ => 0)
    (hne : ∀ side version, c side ≠ (disk.entriesOf version side).headD 0) :
    Disruptive crc32 plan disk := by
  refine ⟨?_, ?_, ?_⟩
  · intro side
    simp only [CallPlan.stopAt, halloc side]
  · intro side version he
    rw [hentries, read_const] at he
    have hhead := congrArg (fun l => l.headD 0) he
    have hpos := disk.entryArraySize_pos
    obtain ⟨m, hm⟩ := Nat.exists_eq_succ_of_ne_zero (Nat.ne_of_gt hpos)
    rw [hm, List.replicate_succ, List.headD_cons] at hhead
    exact hne side version hhead
  · intro side version he
    rw [hheader, read_const] at he
    have hdecoded := congrArg headerCodec.decode he
    rw [headerCodec.decode_encode] at hdecoded
    have hsignature : (disk.sealedHeader crc32 version side).header.signature = efiPtabHeaderId := by
      have hsame := h.headerOf_eq version side
      have hsig := h.signature side
      rw [← hsame] at hsig
      exact hsig
    rw [← hdecoded] at hsignature
    have hzero : (headerCodec.decode (List.replicate headerCodec.size 0)).header.signature = 0 := rfl
    rw [hzero] at hsignature
    exact absurd hsignature (by decide)

/-- There are bytes whose tearing destroys either version in either copy. -/
theorem exists_disruptive (h : disk.Committable) : ∃ torn : CommitCall → ℕ → Byte,
    ∀ outcome : CommitCall → CallOutcome, (∀ side, outcome (.block side) = .success) →
      Disruptive crc32 ⟨outcome, torn⟩ disk := by
  have hbyte (side : Side) := exists_other_byte ((disk.entriesOf .original side).headD 0)
    ((disk.entriesOf .switched side).headD 0)
  choose c hc using hbyte
  refine ⟨fun call => match call with
    | .entries side => fun _ => c side
    | _ => fun _ => 0, fun outcome halloc => ?_⟩
  refine disruptive_of_const crc32 h c halloc (fun _ => rfl) (fun _ => rfl) ?_
  intro side version
  cases version with
  | original => exact (hc side).1
  | switched => exact (hc side).2

end Torn

section Recoverable

variable {w : World} {handles : Except EfiError (List Handle)} {allocated : Bool}
  {loaded disks : List GptDisk} {currentSlot targetSlot : AbSlot} {n n' : ℕ}

/-- A disk that loses both copies to disruptive bytes has no valid table left. -/
theorem Switched.lost_of_disruptive (h : Switched crc32 w loaded disks) {plan : UpdatePlan}
    (hcommit : ∀ disk ∈ disks, Disruptive crc32 (plan.commit disk.blockIo.device) disk)
    (hrollback : ∀ disk ∈ disks, Disruptive crc32 (plan.rollback disk.blockIo.device) disk)
    {disk : GptDisk} (hd : disk ∈ disks) (hloses : plan.LosesBoth disks disk)
    (targetSlot : AbSlot) (side : Side) :
    ¬ IntactCopy crc32 ((exec (updateStorages crc32 plan targetSlot disks) w).2.devices
      disk.blockIo.device) disk.asLoaded disk side := by
  intro hintact
  have hfinal := @updateStorages_final crc32 w loaded disks h True plan
    (fun disk' hd' _ => hcommit disk' hd') (fun disk' hd' _ => hrollback disk' hd') targetSlot
    (h.representsAll True) disk hd
  obtain ⟨version, hholds⟩ := (h.intactCopy_iff hd).mp hintact
  have hlost : (plan.finalState disks disk).copy side = none := by
    by_contra hsome
    obtain ⟨t, ht⟩ := Option.ne_none_iff_exists'.mp hsome
    exact (plan.finalState_recoverable_iff disks disk).mp ⟨side, t, ht⟩ hloses
  have hside := hfinal side
  rw [hlost] at hside
  exact hside trivial version hholds

/-- Where a disk loses both copies, some bytes in the torn ranges leave it no valid table. -/
theorem Switched.exists_lost (h : Switched crc32 w loaded disks) (plan : UpdatePlan)
    (halloc : ∀ device side, (plan.commit device).outcome (.block side) = .success)
    (halloc' : ∀ device side, (plan.rollback device).outcome (.block side) = .success)
    {disk : GptDisk} (hd : disk ∈ disks) (hloses : plan.LosesBoth disks disk)
    (targetSlot : AbSlot) :
    ∃ torn torn', ∀ side, ¬ IntactCopy crc32 ((exec (updateStorages crc32
      (plan.retear torn torn') targetSlot disks) w).2.devices disk.blockIo.device)
      disk.asLoaded disk side := by
  have htorn (device : ℕ) : ∃ torn : CommitCall → ℕ → Byte, ∀ disk' ∈ disks,
      disk'.blockIo.device = device → ∀ outcome : CommitCall → CallOutcome,
      (∀ side, outcome (.block side) = .success) → Disruptive crc32 ⟨outcome, torn⟩ disk' := by
    by_cases hsome : ∃ disk' ∈ disks, disk'.blockIo.device = device
    · obtain ⟨disk', hd', rfl⟩ := hsome
      obtain ⟨torn, htorn⟩ := exists_disruptive crc32 (h.committable hd')
      refine ⟨torn, fun disk'' hd'' he => ?_⟩
      rw [List.inj_on_of_nodup_map h.distinct hd'' hd' he]
      exact htorn
    · exact ⟨fun _ _ => 0, fun disk' hd' he => absurd ⟨disk', hd', he⟩ hsome⟩
  choose torn htorn using htorn
  have hcommit : ∀ disk' ∈ disks,
      Disruptive crc32 ((plan.retear torn torn).commit disk'.blockIo.device) disk' :=
    fun disk' hd' => htorn _ disk' hd' rfl _ (halloc _)
  have hrollback : ∀ disk' ∈ disks,
      Disruptive crc32 ((plan.retear torn torn).rollback disk'.blockIo.device) disk' :=
    fun disk' hd' => htorn _ disk' hd' rfl _ (halloc' _)
  exact ⟨torn, torn, h.lost_of_disruptive crc32 hcommit hrollback hd hloses targetSlot⟩

theorem Switched.intact_of_not_losesBoth (h : Switched crc32 w loaded disks) (plan : UpdatePlan)
    {disk : GptDisk} (hd : disk ∈ disks) (hkeeps : ¬ plan.LosesBoth disks disk)
    (targetSlot : AbSlot) :
    ∃ side, IntactCopy crc32 ((exec (updateStorages crc32 plan targetSlot disks) w).2.devices
      disk.blockIo.device) disk.asLoaded disk side := by
  have hfinal := @updateStorages_final crc32 w loaded disks h False plan
    (fun _ _ => False.elim) (fun _ _ => False.elim) targetSlot (h.representsAll False) disk hd
  exact h.exists_intactCopy hd hfinal ((plan.finalState_recoverable_iff disks disk).mpr hkeeps)

/-- Whatever the torn ranges hold, every disk keeps a valid table exactly when no disk has
its commit stopped in the primary copy and its rollback stopped in the backup copy. -/
theorem updateStorages_recoverable_iff
    (hload : loadGptDisks crc32 w.devices handles allocated = .ok loaded)
    (hdistinct : (loaded.map (·.blockIo.device)).Nodup)
    (hapart : ∀ disk ∈ loaded, disk.regions.Pairwise Region.Disjoint)
    (hswitch : switchAllGptPairs loaded currentSlot targetSlot n = .ok (disks, n'))
    (plan : UpdatePlan)
    (halloc : ∀ device side, (plan.commit device).outcome (.block side) = .success)
    (halloc' : ∀ device side, (plan.rollback device).outcome (.block side) = .success) :
    (∀ torn torn' (i : ℕ) before after, loaded[i]? = some before → disks[i]? = some after →
      ∃ side, IntactCopy crc32 ((exec (updateStorages crc32 (plan.retear torn torn') targetSlot
        disks) w).2.devices before.blockIo.device) before after side) ↔
    ∀ disk ∈ disks, ¬ plan.LosesBoth disks disk := by
  have h := switched_of_load crc32 hload hdistinct hapart hswitch
  constructor
  · intro hall disk hd hloses
    obtain ⟨torn, torn', hlost⟩ := h.exists_lost crc32 plan halloc halloc' hd hloses targetSlot
    obtain ⟨i, hi⟩ := List.mem_iff_getElem?.mp hd
    have hbefore : loaded[i]? = some disk.asLoaded := by
      rw [← h.loaded, List.getElem?_map, hi, Option.map_some]
    obtain ⟨side, hintact⟩ := hall torn torn' i disk.asLoaded disk hbefore hi
    exact hlost side hintact
  · intro hnone torn torn' i before after hbefore hafter
    obtain ⟨hd, rfl⟩ := h.getElem?_loaded hbefore hafter
    exact h.intact_of_not_losesBoth crc32 (plan.retear torn torn') hd (hnone after hd) targetSlot

end Recoverable

section Xbl

/-- The commit fails in the primary entry array; the rollback makes all its calls. -/
def failingCommit : UpdatePlan where
  commit _ := .faultAt (.entries .primary) (.failure (.driver 7))
  rollback _ := .noFaults
  locateCardInfo := none
  setBootLu := none
  failedBootLu lu := lu

theorem updateStorages_recoverable_failingCommit : ∃ side, IntactCopy efiCrc32
    ((exec (updateStorages efiCrc32 (failingCommit.retear (fun _ _ _ => 1) (fun _ _ _ => 1)) .b
      [xblSwitched]) xblWorld).2.devices xblDisk.blockIo.device) xblDisk xblSwitched side := by
  have hiff := updateStorages_recoverable_iff efiCrc32 (w := xblWorld) loadGptDisks_xbl
    (List.nodup_singleton _) (by simpa using xblDisk_apart) switchAllGptPairs_xbl
    failingCommit (fun _ _ => rfl) (fun _ _ => rfl)
  have hrollback : loopStage failingCommit.rollbackStop failingCommit.rollbackStage [xblSwitched]
      xblSwitched ≠ .backupOpen := by decide +kernel
  have hkeeps : ∀ disk ∈ [xblSwitched], ¬ failingCommit.LosesBoth [xblSwitched] disk := by
    intro disk hd hloses
    rw [List.mem_singleton.mp hd] at hloses
    exact hrollback hloses.2.2
  exact hiff.mpr hkeeps _ _ 0 xblDisk xblSwitched rfl rfl

/-- The rollback fails as well, in the backup entry array. -/
def failingRollback : UpdatePlan :=
  { failingCommit with rollback := fun _ => .faultAt (.entries .backup) (.failure (.driver 7)) }

theorem disruptive_xbl (side : Side) (outcome : CallOutcome) :
    Disruptive efiCrc32 (.faultAt (.entries side) outcome) xblSwitched := by
  refine disruptive_of_const efiCrc32 (switched_xbl.committable (List.mem_singleton.mpr rfl))
    (fun _ => 0) (fun _ => rfl) (fun _ => rfl) (fun _ => rfl) ?_
  intro side' version
  cases side' <;> cases version <;> decide +kernel

/-- After this run no copy of the table is left. -/
theorem updateStorages_failingRollback : ¬ ∃ side, IntactCopy efiCrc32
    ((exec (updateStorages efiCrc32 failingRollback .b [xblSwitched]) xblWorld).2.devices
      xblDisk.blockIo.device) xblDisk xblSwitched side := by
  have hdisruptive (side : Side) (outcome : CallOutcome) : ∀ disk ∈ [xblSwitched],
      Disruptive efiCrc32 (.faultAt (.entries side) outcome) disk := by
    intro disk hd
    rw [List.mem_singleton.mp hd]
    exact disruptive_xbl side outcome
  have hcommit : loopStage failingRollback.commitStop failingRollback.commitStage [xblSwitched]
      xblSwitched = .primaryOpen := by decide +kernel
  have hrolls : failingRollback.rollsBack [xblSwitched] = true := by decide +kernel
  have hrollback : loopStage failingRollback.rollbackStop failingRollback.rollbackStage
      [xblSwitched] xblSwitched = .backupOpen := by decide +kernel
  have hsame : xblSwitched.asLoaded = xblDisk := (List.cons.inj switched_xbl.loaded).1
  rintro ⟨side, hintact⟩
  have hlost := switched_xbl.lost_of_disruptive efiCrc32 (hdisruptive _ _) (hdisruptive _ _)
    (List.mem_singleton.mpr rfl) ⟨hcommit, hrolls, hrollback⟩ .b side
  rw [hsame, ← GptDisk.blockIo_asLoaded, hsame] at hlost
  exact hlost hintact

end Xbl

end ProjectMu
