import ProjectMu.SwitchSlotRollback

/-!
# What an update of the storages leaves behind

An update that succeeds leaves the switched tables on every modified disk, and one that
fails leaves the original ones, where no power is lost and the rollback can write. Only
modified disks are written to, and only a complete update changes the boot LU.
-/

namespace ProjectMu

open ByteCodec ByteRange CrashLogic TwoCopy SlotSwitch

variable (crc32 : List Byte → BitVec 32)

section Final

variable {plan : UpdatePlan} {disks : List GptDisk}

theorem loopStage_of_runStop_eq_none {stop : GptDisk → Option Stop} (stage : GptDisk → Stage)
    (h : runStop stop disks = none) (hdone : ∀ disk, stop disk = none → stage disk = .done)
    {disk : GptDisk} (hd : disk ∈ disks) :
    loopStage stop stage disks disk = if disk.modified then .done else .untouched := by
  have hnone {d : GptDisk} (hmem : d ∈ disks) (hm : d.modified = true) : stop d = none := by
    have hd' := List.findSome?_eq_none_iff.mp h d hmem
    rwa [if_pos hm] at hd'
  have hreached : reached stop disks disk.blockIo.device = true := by
    unfold reached
    rw [List.all_eq_true]
    intro d hmem
    have hin := (List.takeWhile_sublist _).subset hmem
    cases hm : d.modified with
    | false => rfl
    | true => simp [hnone hin hm]
  unfold loopStage
  rw [hreached, Bool.and_true]
  split_ifs with hm
  · exact hdone disk (hnone hd hm)
  · rfl

theorem CallPlan.stop_status {plan : CallPlan} (h : ∀ call, plan.outcome call ≠ .powerLoss)
    {stop : Stop} (hstop : plan.stop = some stop) : ∃ e, stop = .status e := by
  obtain ⟨call, -, hcall⟩ := List.exists_of_findSome?_eq_some hstop
  cases ho : plan.outcome call with
  | success => simp [CallPlan.stopAt, ho] at hcall
  | powerLoss => exact absurd ho (h call)
  | failure e =>
    cases call <;> simp only [CallPlan.stopAt, ho, Option.some.injEq] at hcall <;>
      exact ⟨_, hcall.symm⟩

/-- A complete update leaves the switched tables on every modified disk. -/
theorem finalState_of_succeeds (h : plan.succeeds disks = true) {disk : GptDisk}
    (hd : disk ∈ disks) (hm : disk.modified = true) :
    plan.finalState disks disk = State.both .switched := by
  have hno : plan.rollsBack disks = false := by
    rw [← Bool.not_eq_true]
    intro hyes
    rw [plan.succeeds_of_rollsBack hyes] at h
    cases h
  unfold UpdatePlan.succeeds at h
  rw [Bool.and_eq_true, Option.isNone_iff_eq_none] at h
  have hstage := loopStage_of_runStop_eq_none plan.commitStage h.1
    (fun d hs => CallPlan.stage_of_stop_eq_none hs) hd
  rw [if_pos hm] at hstage
  unfold UpdatePlan.finalState
  rw [hno, hstage]
  rfl

theorem CallPlan.stage_of_writes {plan : CallPlan}
    (h : ∀ call, call ≠ .flush → plan.outcome call = .success) : plan.stage = .done := by
  have hside (side : Side) : plan.stopIn (sideCalls side) = none := by
    rw [plan.stopIn_sideCalls]
    simp [CallPlan.stopAt, h]
  simp [CallPlan.stage, hside]

theorem UpdatePlan.rollbackStop_of_writes {disk : GptDisk}
    (h : ∀ call, call ≠ .flush → (plan.rollback disk.blockIo.device).outcome call = .success)
    (hflush : (plan.rollback disk.blockIo.device).outcome .flush ≠ .powerLoss) :
    plan.rollbackStop disk = none := by
  have hside (side : Side) : (plan.rollback disk.blockIo.device).stopIn (sideCalls side) = none := by
    rw [CallPlan.stopIn_sideCalls]
    simp [CallPlan.stopAt, h]
  unfold UpdatePlan.rollbackStop
  rw [CallPlan.stop_eq, hside, hside]
  unfold CallPlan.stopAt
  cases ho : (plan.rollback disk.blockIo.device).outcome .flush with
  | success => rfl
  | failure e => rfl
  | powerLoss => exact absurd ho hflush

/-- An update that fails without a loss of power, and whose rollback can write, leaves the
original tables on every disk. -/
theorem finalState_of_not_succeeds (h : plan.succeeds disks = false)
    (hcommit : ∀ device call, (plan.commit device).outcome call ≠ .powerLoss)
    (hrollback : ∀ device call, call ≠ .flush → (plan.rollback device).outcome call = .success)
    (hflush : ∀ device, (plan.rollback device).outcome .flush ≠ .powerLoss) {disk : GptDisk}
    (hd : disk ∈ disks) : plan.finalState disks disk = State.both .original := by
  have hyes : plan.rollsBack disks = true := by
    unfold UpdatePlan.succeeds at h
    unfold UpdatePlan.rollsBack
    cases hstop : runStop plan.commitStop disks with
    | none =>
      rw [hstop, Option.isNone_none, Bool.true_and, Bool.not_eq_false'] at h
      exact h
    | some stop =>
      obtain ⟨d, -, hd'⟩ := List.exists_of_findSome?_eq_some hstop
      by_cases hm : d.modified = true
      · rw [if_pos hm] at hd'
        obtain ⟨e, rfl⟩ := CallPlan.stop_status (hcommit _) hd'
        rfl
      · rw [if_neg hm] at hd'
        cases hd'
  have hnone : runStop plan.rollbackStop disks = none := by
    unfold runStop
    rw [List.findSome?_eq_none_iff]
    intro d _
    rw [UpdatePlan.rollbackStop_of_writes (hrollback _) (hflush _), ite_self]
  have hstage := loopStage_of_runStop_eq_none plan.rollbackStage hnone
    (fun d _ => CallPlan.stage_of_writes (hrollback _)) hd
  unfold UpdatePlan.finalState
  rw [hyes, if_pos rfl, hstage]
  split_ifs with hm
  · rfl
  · simp only [loopStage, hm, Bool.false_and, Bool.false_eq_true, if_false]
    rfl

end Final

section Frame

/-- Only the stores of the allowed devices change, and only they are written to. -/
structure OnlyWrites (allowed : ℕ → Prop) (w w' : World) : Prop where
  devices : ∀ d, ¬ allowed d → w'.devices d = w.devices d
  writes : ∃ requests, w'.writes = w.writes ++ requests ∧ ∀ r ∈ requests, allowed r.device

variable {allowed : ℕ → Prop} {w w' w'' : World}

theorem OnlyWrites.trans (h : OnlyWrites allowed w w') (h' : OnlyWrites allowed w' w'') :
    OnlyWrites allowed w w'' := by
  obtain ⟨l, hl, hmem⟩ := h.writes
  obtain ⟨l', hl', hmem'⟩ := h'.writes
  refine ⟨fun d hd => (h'.devices d hd).trans (h.devices d hd), l ++ l', ?_, ?_⟩
  · rw [hl', hl, List.append_assoc]
  · intro r hr
    rcases List.mem_append.mp hr with hr | hr
    · exact hmem r hr
    · exact hmem' r hr

theorem onlyWrites_of_eq (hdevices : w'.devices = w.devices) (hwrites : w'.writes = w.writes) :
    OnlyWrites allowed w w' :=
  ⟨fun d _ => congrFun hdevices d, [], by rw [hwrites, List.append_nil], by simp⟩

theorem OnlyTouches.onlyWrites (h : OnlyTouches allowed w w') : OnlyWrites allowed w w' :=
  ⟨h.devices, h.writes⟩

/-- A device keeps its contents, and no write to it is requested. -/
def NotWritten (w w' : World) (device : ℕ) : Prop :=
  w'.devices device = w.devices device ∧
    w'.writes.filter (·.device = device) = w.writes.filter (·.device = device)

theorem OnlyWrites.notWritten (h : OnlyWrites allowed w w') {device : ℕ}
    (hd : ¬ allowed device) : NotWritten w w' device := by
  refine ⟨h.devices device hd, ?_⟩
  obtain ⟨requests, hwrites, hmem⟩ := h.writes
  have hnone : requests.filter (·.device = device) = [] := by
    rw [List.filter_eq_nil_iff]
    intro r hr he
    exact hd (of_decide_eq_true he ▸ hmem r hr)
  rw [hwrites, List.filter_append, hnone, List.append_nil]

theorem onlyWrites_orRollback {c rollback : EfiM Unit} (hc : Within (OnlyWrites allowed) c)
    (hr : Within (OnlyWrites allowed) rollback) :
    Within (OnlyWrites allowed) (orRollback c rollback) := by
  intro w
  have h1 := hc w
  unfold orRollback
  rw [exec_ofFun]
  rcases hexec : exec c w with ⟨res, w'⟩
  rw [hexec] at h1
  cases res with
  | ok a => exact h1
  | error stop =>
    cases stop with
    | status e =>
      have h2 := hr w'
      dsimp only
      rcases hexec' : exec rollback w' with ⟨res', w''⟩
      rw [hexec'] at h2
      cases res' with
      | ok a => exact h1.trans h2
      | error e' => exact h1.trans h2
    | powerLoss => exact h1
    | awaitingKey => exact h1

theorem onlyWrites_updateStorages (plan : UpdatePlan) (targetSlot : AbSlot)
    (disks : List GptDisk) :
    Within (OnlyWrites (ModifiedDevice disks)) (updateStorages crc32 plan targetSlot disks) := by
  have hback : Within (OnlyWrites (ModifiedDevice disks))
      (rollbackModifiedGptDisks crc32 plan.rollback disks) :=
    (touches_rollbackModifiedGptDisks crc32 plan.rollback disks).mono
      (fun _ _ h => h.onlyWrites)
  have hcommit : Within (OnlyWrites (ModifiedDevice disks))
      (commitModifiedGptDisks crc32 plan.commit disks) :=
    (touches_commitModifiedGptDisks crc32 plan.commit disks).mono (fun _ _ h => h.onlyWrites)
  have hboot : Within (OnlyWrites (ModifiedDevice disks)) (setUfsBootLu plan targetSlot) := by
    intro w
    unfold setUfsBootLu
    cases plan.locateCardInfo with
    | some e => exact onlyWrites_of_eq rfl rfl
    | none =>
      dsimp only
      rw [exec_ofFun]
      cases plan.setBootLu with
      | some e => exact onlyWrites_of_eq rfl rfl
      | none => exact onlyWrites_of_eq rfl rfl
  exact within_bind (fun h1 h2 => h1.trans h2) (onlyWrites_orRollback hcommit hback)
    (fun _ => onlyWrites_orRollback hboot hback)

/-- The boot LU changes with the last step of a complete update only. -/
theorem triple_bootLu {plan : UpdatePlan} (hboot : ∀ lu, plan.failedBootLu lu = lu)
    (targetSlot : AbSlot) (disks : List GptDisk) (lu : BitVec 32) :
    Triple (fun w => w.bootLu = lu) (updateStorages crc32 plan targetSlot disks)
      (fun _ w => w.bootLu = bootLuOf targetSlot) (fun _ w => w.bootLu = lu) := by
  have hkeep {c : EfiM Unit} (hc : Within (OnlyTouches (ModifiedDevice disks)) c) :
      Triple (fun w => w.bootLu = lu) c (fun _ w => w.bootLu = lu) (fun _ w => w.bootLu = lu) := by
    intro w hw
    have hrun := (hc w).bootLu
    rcases hexec : exec c w with ⟨res, w'⟩
    rw [hexec] at hrun
    cases res with
    | ok a => exact hrun.trans hw
    | error e => exact hrun.trans hw
  have hback := hkeep (touches_rollbackModifiedGptDisks crc32 plan.rollback disks)
  have hset : Triple (fun w => w.bootLu = lu) (setUfsBootLu plan targetSlot)
      (fun _ w => w.bootLu = bootLuOf targetSlot) (fun _ w => w.bootLu = lu) := by
    unfold setUfsBootLu
    cases plan.locateCardInfo with
    | some e => exact triple_throw (fun w hw => hw)
    | none =>
      intro w hw
      dsimp only
      rw [exec_ofFun]
      cases plan.setBootLu with
      | some e => exact (hboot _).trans hw
      | none => rfl
  refine triple_bind (triple_orRollback (hkeep (touches_commitModifiedGptDisks crc32 plan.commit
    disks)) (fun _ _ hw => hw) (fun _ _ _ hw => hw) hback) (fun _ => ?_)
  exact triple_orRollback hset (fun _ _ hw => hw) (fun _ _ _ hw => hw) hback

end Frame

end ProjectMu
