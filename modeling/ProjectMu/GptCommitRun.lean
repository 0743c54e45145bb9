import ProjectMu.GptCommitRefine

/-!
# A whole commit, and the loops over the modified disks

One run of `commitGptDisk` updates the two copies of its disk up to the stage of its call
plan and touches no other device. The loops over the modified disks therefore update each
disk on its own: a disk is reached as long as no modified disk before it stopped the loop.
-/

namespace ProjectMu

open ByteCodec ByteRange CrashLogic TwoCopy

variable (crc32 : List Byte → BitVec 32)

/-- The table a commit writes. -/
def versionOf (restoreOriginal : Bool) : TableVersion :=
  if restoreOriginal then .original else .switched

def writeGptCopy (plan : CallPlan) (disk : GptDisk) (version : TableVersion) (side : Side) :
    EfiM Unit := do
  writeGptEntryArray plan (.entries side) disk (disk.sealedHeader crc32 version side)
    (disk.entriesOf version side)
  writeGptHeader plan (.block side) (.header side) disk (disk.sealedHeader crc32 version side)

theorem commitGptDisk_eq {disk : GptDisk} (h : disk.Committable) (plan : CallPlan)
    (restoreOriginal : Bool) : commitGptDisk crc32 plan disk restoreOriginal = (do
      writeGptCopy crc32 plan disk (versionOf restoreOriginal) .backup
      writeGptCopy crc32 plan disk (versionOf restoreOriginal) .primary
      flushBlocks plan .flush) := by
  have hsize (version : TableVersion) (side : Side) :
      (disk.headerOf version side).header.headerSize.toNat = headerCodec.size := by
    rw [h.headerOf_eq]
    exact h.headerSize side
  have hupdate (version : TableVersion) (side : Side) :
      updateGptHeaderCrc crc32 (disk.headerOf version side) (disk.entriesOf version side) =
        .ok (disk.sealedHeader crc32 version side) :=
    updateGptHeaderCrc_eq crc32 (hsize version side) (disk.entriesOf_ne_nil version side)
  have hp := hupdate (versionOf restoreOriginal) .primary
  have hb := hupdate (versionOf restoreOriginal) .backup
  cases restoreOriginal with
  | false =>
    change updateGptHeaderCrc crc32 disk.primaryHeader disk.primaryEntries = _ at hp
    change updateGptHeaderCrc crc32 disk.backupHeader disk.backupEntries = _ at hb
    unfold commitGptDisk writeGptCopy
    simp only [Bool.false_eq_true, if_false, ofExcept_bind hp, ofExcept_bind hb, bind_assoc]
    rfl
  | true =>
    change updateGptHeaderCrc crc32 disk.originalPrimaryHeader disk.originalPrimaryEntries = _ at hp
    change updateGptHeaderCrc crc32 disk.originalBackupHeader disk.originalBackupEntries = _ at hb
    unfold commitGptDisk writeGptCopy
    simp only [if_true, ofExcept_bind hp, ofExcept_bind hb, bind_assoc]
    rfl

theorem CallPlan.stopIn_append (plan : CallPlan) (calls calls' : List CommitCall) :
    plan.stopIn (calls ++ calls') = (plan.stopIn calls).or (plan.stopIn calls') := by
  simp only [CallPlan.stopIn, List.findSome?_append]

theorem CallPlan.stopIn_sideCalls (plan : CallPlan) (side : Side) :
    plan.stopIn (sideCalls side) = ((plan.stopAt (.entries side)).or
      (plan.stopAt (.block side))).or (plan.stopAt (.header side)) := by
  unfold CallPlan.stopIn sideCalls
  simp only [List.findSome?_cons, List.findSome?_nil]
  cases plan.stopAt (.entries side) <;> cases plan.stopAt (.block side) <;>
    cases plan.stopAt (.header side) <;> rfl

theorem CallPlan.stop_eq (plan : CallPlan) : plan.stop =
    ((plan.stopIn (sideCalls .backup)).or (plan.stopIn (sideCalls .primary))).or
      (plan.stopAt .flush) := by
  unfold CallPlan.stop
  rw [plan.stopIn_append, plan.stopIn_append]
  congr 1
  cases hf : plan.stopAt .flush <;> simp [CallPlan.stopIn, hf]

theorem CallPlan.stage_of_stop_eq_none {plan : CallPlan} (h : plan.stop = none) :
    plan.stage = .done := by
  rw [plan.stop_eq, Option.or_eq_none_iff, Option.or_eq_none_iff] at h
  simp [CallPlan.stage, h.1.1, h.1.2]

section Commit

variable {disk : GptDisk} (h : disk.Committable) {exact : Prop} {plan : CallPlan}
  (hplan : exact → Disruptive crc32 plan disk)

include h hplan

theorem triple_writeGptCopy {side other : Side} (hne : other ≠ side)
    (content : Option TableVersion) (version : TableVersion) :
    Triple (fun w => RepresentsSide crc32 exact w disk other content)
      (writeGptCopy crc32 plan disk version side)
      (fun _ w => plan.stopIn (sideCalls side) = none ∧
        RepresentsSide crc32 exact w disk other content ∧
        RepresentsSide crc32 exact w disk side (some version))
      (fun e w => plan.stopIn (sideCalls side) = some e ∧
        RepresentsSide crc32 exact w disk other content ∧
        RepresentsSide crc32 exact w disk side none) := by
  have hentries := @triple_writeGptEntryArray crc32 disk h exact plan hplan side other hne content
    version
  have hheader := @triple_writeGptHeader crc32 disk h exact plan hplan side other hne content
    version
  have hstop := plan.stopIn_sideCalls side
  unfold writeGptCopy
  refine triple_bind (hentries.conseq (fun _ hw => hw) (fun _ _ hw => hw) ?_) ?_
  · rintro e w ⟨hs, hw⟩
    exact ⟨by rw [hstop, hs]; rfl, hw⟩
  intro _ w ⟨hs, hw⟩
  refine @Triple.conseq World Stop Unit _ (fun w' => w' = w) _ _ _ _ _ hheader ?_ ?_ ?_ w rfl
  · rintro _ rfl
    exact hw
  · rintro _ w' ⟨⟨hb, hh⟩, hw'⟩
    exact ⟨by rw [hstop, hs, hb, hh]; rfl, hw'⟩
  · rintro e w' ⟨hb | ⟨hb, hh⟩, hw'⟩
    · exact ⟨by rw [hstop, hs, hb]; rfl, hw'⟩
    · exact ⟨by rw [hstop, hs, hb, hh]; rfl, hw'⟩

omit h hplan in
theorem triple_flushBlocks (plan : CallPlan) {P : World → Prop} :
    Triple P (flushBlocks plan .flush) (fun _ w => plan.stopAt .flush = none ∧ P w)
      (fun e w => plan.stopAt .flush = some e ∧ P w) := by
  unfold flushBlocks
  cases ho : plan.outcome .flush with
  | success => exact triple_pure (fun w hw => ⟨by simp [CallPlan.stopAt, ho], hw⟩)
  | failure e => exact triple_throw (fun w hw => ⟨by simp [CallPlan.stopAt, ho], hw⟩)
  | powerLoss => exact triple_throw (fun w hw => ⟨by simp [CallPlan.stopAt, ho], hw⟩)

/-- A commit is a two-copy update up to the stage of its plan, and stops when its plan does. -/
theorem commitGptDisk_refines (restoreOriginal : Bool) (s : State TableVersion) :
    Triple (fun w => Represents crc32 exact w disk s)
      (commitGptDisk crc32 plan disk restoreOriginal)
      (fun _ w => plan.stop = none ∧
        Represents crc32 exact w disk (update (versionOf restoreOriginal) s plan.stage))
      (fun e w => plan.stop = some e ∧
        Represents crc32 exact w disk (update (versionOf restoreOriginal) s plan.stage)) := by
  have hstop := plan.stop_eq
  rw [commitGptDisk_eq crc32 h]
  have hbackup := triple_writeGptCopy crc32 h hplan (by decide : Side.primary ≠ Side.backup)
    s.primary (versionOf restoreOriginal)
  refine triple_bind (hbackup.conseq (fun w hw => hw .primary) (fun _ _ hw => hw) ?_) ?_
  · rintro e w ⟨hb, hp, hn⟩
    have hstage : plan.stage = .backupOpen := by simp [CallPlan.stage, hb]
    refine ⟨by rw [hstop, hb]; rfl, ?_⟩
    rw [hstage]
    intro side
    cases side with
    | primary => exact hp
    | backup => exact hn
  rintro _ w ⟨hb, -, hheld⟩
  have hprimary := triple_writeGptCopy crc32 h hplan (by decide : Side.backup ≠ Side.primary)
    (some (versionOf restoreOriginal)) (versionOf restoreOriginal)
  refine triple_bind (P := fun w' => w' = w) (Q := fun _ w' =>
    plan.stopIn (sideCalls .primary) = none ∧ Represents crc32 exact w' disk
      (State.both (versionOf restoreOriginal))) (hprimary.conseq ?_ ?_ ?_) ?_ w rfl
  · rintro _ rfl
    exact hheld
  · rintro _ w' ⟨hp, hb', hp'⟩
    refine ⟨hp, ?_⟩
    intro side
    cases side with
    | primary => exact hp'
    | backup => exact hb'
  · rintro e w' ⟨hp, hb', hn⟩
    have hstage : plan.stage = .primaryOpen := by simp [CallPlan.stage, hb, hp]
    refine ⟨by rw [hstop, hb, hp]; rfl, ?_⟩
    rw [hstage]
    intro side
    cases side with
    | primary => exact hn
    | backup => exact hb'
  · intro _ w' ⟨hp, hw'⟩
    have hstage : plan.stage = .done := by simp [CallPlan.stage, hb, hp]
    have hflush := triple_flushBlocks plan (P := fun w'' => w'' = w') w' rfl
    rw [hstage]
    split at hflush
    · obtain ⟨hf, rfl⟩ := hflush
      exact ⟨by rw [hstop, hb, hp, hf]; rfl, hw'⟩
    · obtain ⟨hf, rfl⟩ := hflush
      exact ⟨by rw [hstop, hb, hp, hf]; rfl, hw'⟩

end Commit

end ProjectMu
