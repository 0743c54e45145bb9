import ProjectMu.GptCommitRun

/-!
# The loops over the modified disks

A commit touches no device but its own, so the loops update each disk on its own. A disk
is reached when no modified disk before it stopped the loop; `loopStage` is how far the
loop then got with it.
-/

namespace ProjectMu

open ByteCodec ByteRange CrashLogic TwoCopy

/-- Only the stores of the allowed devices change, and only they are written to. -/
structure OnlyTouches (allowed : ℕ → Prop) (w w' : World) : Prop where
  devices : ∀ d, ¬ allowed d → w'.devices d = w.devices d
  bootLu : w'.bootLu = w.bootLu
  keys : w'.keys = w.keys
  writes : ∃ requests, w'.writes = w.writes ++ requests ∧ ∀ r ∈ requests, allowed r.device

namespace OnlyTouches

variable {allowed allowed' : ℕ → Prop} {w w' w'' : World}

theorem refl (w : World) : OnlyTouches allowed w w :=
  ⟨fun _ _ => rfl, rfl, rfl, [], by simp⟩

theorem trans (h : OnlyTouches allowed w w') (h' : OnlyTouches allowed w' w'') :
    OnlyTouches allowed w w'' := by
  obtain ⟨l, hl, hmem⟩ := h.writes
  obtain ⟨l', hl', hmem'⟩ := h'.writes
  refine ⟨fun d hd => (h'.devices d hd).trans (h.devices d hd), h'.bootLu.trans h.bootLu,
    h'.keys.trans h.keys, l ++ l', ?_, ?_⟩
  · rw [hl', hl, List.append_assoc]
  · intro r hr
    rcases List.mem_append.mp hr with hr | hr
    · exact hmem r hr
    · exact hmem' r hr

theorem mono (h : OnlyTouches allowed w w') (hsub : ∀ d, allowed d → allowed' d) :
    OnlyTouches allowed' w w' := by
  obtain ⟨l, hl, hmem⟩ := h.writes
  exact ⟨fun d hd => h.devices d (fun ha => hd (hsub d ha)), h.bootLu, h.keys, l, hl,
    fun r hr => hsub _ (hmem r hr)⟩

end OnlyTouches

section Frame

variable {allowed : ℕ → Prop} {α β : Type}

theorem touches_ofExcept (x : Except EfiError α) : Within (OnlyTouches allowed) (ofExcept x) := by
  cases x with
  | ok a => exact within_pure OnlyTouches.refl a
  | error e => exact within_throw OnlyTouches.refl _

theorem touches_bind {c : EfiM α} {f : α → EfiM β} (h : Within (OnlyTouches allowed) c)
    (hf : ∀ a, Within (OnlyTouches allowed) (f a)) : Within (OnlyTouches allowed) (c >>= f) :=
  within_bind (fun h1 h2 => h1.trans h2) h hf

theorem onlyTouches_setStore {w : World} {device : ℕ} (range : Region) (store : Store Byte)
    (h : allowed device) :
    OnlyTouches allowed w ((w.logWrite ⟨device, range⟩).setStore device store) := by
  refine ⟨?_, rfl, rfl, [⟨device, range⟩], rfl, ?_⟩
  · intro d hd
    have hne : d ≠ device := fun he => hd (he ▸ h)
    simp only [World.setStore, World.logWrite, Function.update_of_ne hne]
  · intro r hr
    rw [List.mem_singleton.mp hr]
    exact h

theorem touches_writeDisk (plan : CallPlan) (call : CommitCall) {blockIo : BlockIo}
    (offset : BitVec 64) (data : List Byte) (h : allowed blockIo.device) :
    Within (OnlyTouches allowed) (writeDisk plan call blockIo offset data) := by
  intro w
  unfold writeDisk
  rw [exec_ofFun]
  cases plan.outcome call with
  | success => exact onlyTouches_setStore _ _ h
  | failure e => exact onlyTouches_setStore _ _ h
  | powerLoss => exact onlyTouches_setStore _ _ h

theorem touches_flushBlocks (plan : CallPlan) (call : CommitCall) :
    Within (OnlyTouches allowed) (flushBlocks plan call) := by
  unfold flushBlocks
  cases plan.outcome call with
  | success => exact within_pure OnlyTouches.refl ()
  | failure e => exact within_throw OnlyTouches.refl _
  | powerLoss => exact within_throw OnlyTouches.refl _

theorem touches_allocateZeroPool (plan : CallPlan) (call : CommitCall) (size : ℕ) :
    Within (OnlyTouches allowed) (allocateZeroPool plan call size) := by
  unfold allocateZeroPool
  cases plan.outcome call with
  | success => exact within_pure OnlyTouches.refl _
  | failure e => exact within_throw OnlyTouches.refl _
  | powerLoss => exact within_throw OnlyTouches.refl _

theorem touches_ignoreStatus {c : EfiM Unit} (h : Within (OnlyTouches allowed) c) :
    Within (OnlyTouches allowed) (ignoreStatus c) := by
  intro w
  have hw := h w
  unfold ignoreStatus
  rw [exec_ofFun]
  rcases he : exec c w with ⟨res, w'⟩
  rw [he] at hw
  cases res with
  | ok a => exact hw
  | error e => cases e <;> exact hw

variable (crc32 : List Byte → BitVec 32)

/-- A commit writes to the device of its disk and to no other. -/
theorem touches_commitGptDisk (plan : CallPlan) {disk : GptDisk} (restoreOriginal : Bool)
    (h : allowed disk.blockIo.device) :
    Within (OnlyTouches allowed) (commitGptDisk crc32 plan disk restoreOriginal) := by
  have hentries (call : CommitCall) (header : EfiPartitionTableHeader) (entries : List Byte) :
      Within (OnlyTouches allowed) (writeGptEntryArray plan call disk header entries) :=
    touches_bind (touches_ofExcept _) (fun offset => touches_writeDisk plan call offset entries h)
  have hheader (block call : CommitCall) (header : EfiPartitionTableHeader) :
      Within (OnlyTouches allowed) (writeGptHeader plan block call disk header) :=
    touches_bind (touches_ofExcept _) (fun offset =>
      touches_bind (touches_allocateZeroPool plan block _)
        (fun buffer => touches_writeDisk plan call offset _ h))
  unfold commitGptDisk
  refine touches_bind (touches_ofExcept _) (fun primaryHeader => ?_)
  refine touches_bind (touches_ofExcept _) (fun backupHeader => ?_)
  refine touches_bind (hentries _ _ _) (fun _ => ?_)
  refine touches_bind (hheader _ _ _) (fun _ => ?_)
  refine touches_bind (hentries _ _ _) (fun _ => ?_)
  exact touches_bind (hheader _ _ _) (fun _ => touches_flushBlocks plan _)

def ModifiedDevice (disks : List GptDisk) (device : ℕ) : Prop :=
  ∃ disk ∈ disks, disk.modified = true ∧ disk.blockIo.device = device

theorem forModified_cons (body : GptDisk → EfiM Unit) (disk : GptDisk) (disks : List GptDisk) :
    forModified body (disk :: disks) =
      if disk.modified then body disk >>= fun _ => forModified body disks
      else forModified body disks := by
  rw [forModified]

theorem touches_forModified {body : GptDisk → EfiM Unit} {disks : List GptDisk}
    (h : ∀ disk ∈ disks, disk.modified = true → Within (OnlyTouches allowed) (body disk)) :
    Within (OnlyTouches allowed) (forModified body disks) := by
  induction disks with
  | nil => exact within_pure OnlyTouches.refl ()
  | cons disk disks ih =>
    have htail := ih (fun d hd => h d (List.mem_cons_of_mem _ hd))
    rw [forModified_cons]
    split_ifs with hm
    · exact touches_bind (h disk List.mem_cons_self hm) (fun _ => htail)
    · exact htail

theorem touches_commitModifiedGptDisks (plans : ℕ → CallPlan) (disks : List GptDisk) :
    Within (OnlyTouches (ModifiedDevice disks)) (commitModifiedGptDisks crc32 plans disks) :=
  touches_forModified (fun disk hd hm =>
    touches_commitGptDisk crc32 _ false ⟨disk, hd, hm, rfl⟩)

theorem touches_rollbackModifiedGptDisks (plans : ℕ → CallPlan) (disks : List GptDisk) :
    Within (OnlyTouches (ModifiedDevice disks)) (rollbackModifiedGptDisks crc32 plans disks) :=
  touches_forModified (fun disk hd hm =>
    touches_ignoreStatus (touches_commitGptDisk crc32 _ true ⟨disk, hd, hm, rfl⟩))

end Frame

section Loop

variable (stop : GptDisk → Option Stop) (stage : GptDisk → Stage)

/-- No modified disk before the one on `device` stops the loop. -/
def reached (disks : List GptDisk) (device : ℕ) : Bool :=
  (disks.takeWhile (fun d => d.blockIo.device ≠ device)).all
    (fun d => !d.modified || (stop d).isNone)

/-- How far the loop gets with one disk. -/
def loopStage (disks : List GptDisk) (disk : GptDisk) : Stage :=
  if disk.modified && reached stop disks disk.blockIo.device then stage disk else .untouched

/-- The effect of the loop on the two copies of every device. -/
def runStates (version : TableVersion) :
    List GptDisk → (ℕ → State TableVersion) → ℕ → State TableVersion
  | [], s => s
  | disk :: disks, s =>
    if disk.modified then
      let device := disk.blockIo.device
      let s' := Function.update s device (update version (s device) (stage disk))
      if (stop disk).isNone then runStates version disks s' else s'
    else runStates version disks s

/-- What stops the loop. -/
def runStop (disks : List GptDisk) : Option Stop :=
  disks.findSome? (fun disk => if disk.modified then stop disk else none)

theorem runStates_of_not_mem (version : TableVersion) {disks : List GptDisk} {device : ℕ}
    (s : ℕ → State TableVersion) (h : device ∉ disks.map (·.blockIo.device)) :
    runStates stop stage version disks s device = s device := by
  induction disks generalizing s with
  | nil => rfl
  | cons disk disks ih =>
    rw [List.map_cons, List.mem_cons, not_or] at h
    simp only [runStates]
    split_ifs with hm hs
    · rw [ih _ h.2, Function.update_of_ne h.1]
    · rw [Function.update_of_ne h.1]
    · exact ih s h.2

theorem runStates_apply (version : TableVersion) {disks : List GptDisk} {disk : GptDisk}
    (s : ℕ → State TableVersion) (hdistinct : (disks.map (·.blockIo.device)).Nodup)
    (hmem : disk ∈ disks) :
    runStates stop stage version disks s disk.blockIo.device =
      update version (s disk.blockIo.device) (loopStage stop stage disks disk) := by
  induction disks generalizing s with
  | nil => cases hmem
  | cons d disks ih =>
    rw [List.map_cons, List.nodup_cons] at hdistinct
    rcases List.mem_cons.mp hmem with rfl | hmem
    · have hreached : reached stop (disk :: disks) disk.blockIo.device = true := by
        simp [reached]
      simp only [runStates, loopStage, hreached, Bool.and_true]
      split_ifs with hm hs
      · rw [runStates_of_not_mem stop stage version _ hdistinct.1, Function.update_self]
      · rw [Function.update_self]
      · rw [runStates_of_not_mem stop stage version _ hdistinct.1]
        rfl
    · have hne : d.blockIo.device ≠ disk.blockIo.device := by
        intro he
        exact hdistinct.1 (he ▸ List.mem_map_of_mem hmem)
      have hreached : reached stop (d :: disks) disk.blockIo.device =
          ((!d.modified || (stop d).isNone) && reached stop disks disk.blockIo.device) := by
        simp [reached, hne]
      simp only [runStates, loopStage, hreached]
      by_cases hm : d.modified = true
      · cases hs : stop d with
        | none =>
          simp only [hm, if_true, Option.isNone_none, Bool.or_true, Bool.true_and]
          rw [ih _ hdistinct.2 hmem, Function.update_of_ne (Ne.symm hne)]
          rfl
        | some e =>
          simp only [hm, if_true, Option.isNone_some, Bool.not_true, Bool.or_false,
            Bool.false_and, Bool.and_false, Bool.false_eq_true, if_false]
          rw [Function.update_of_ne (Ne.symm hne)]
          rfl
      · rw [Bool.not_eq_true] at hm
        simp only [hm, Bool.false_eq_true, if_false, Bool.not_false, Bool.true_or, Bool.true_and]
        exact ih s hdistinct.2 hmem

variable (crc32 : List Byte → BitVec 32)

def RepresentsAll (exact : Prop) (disks : List GptDisk) (s : ℕ → State TableVersion) (w : World) :
    Prop :=
  ∀ disk ∈ disks, Represents crc32 exact w disk (s disk.blockIo.device)

theorem represents_of_devices_eq {exact : Prop} {w w' : World} {disk : GptDisk}
    {s : State TableVersion}
    (he : w'.devices disk.blockIo.device = w.devices disk.blockIo.device)
    (h : Represents crc32 exact w disk s) : Represents crc32 exact w' disk s := by
  intro side
  have hside := h side
  cases hc : s.copy side with
  | some version =>
    rw [hc] at hside
    change Holds crc32 w disk version side at hside
    change Holds crc32 w' disk version side
    unfold Holds at hside ⊢
    rwa [he]
  | none =>
    rw [hc] at hside
    intro hexact version hold
    apply hside hexact version
    unfold Holds at hold ⊢
    rwa [← he]

variable {stop stage} {exact : Prop} {version : TableVersion} {body : GptDisk → EfiM Unit}
  {all : List GptDisk} (hdistinct : (all.map (·.blockIo.device)).Nodup)

include hdistinct

/-- A body that updates its own disk and touches no other device updates the whole list
at one place. -/
theorem triple_body {disk : GptDisk} (hmem : disk ∈ all)
    (hbody : ∀ s, Triple (fun w => Represents crc32 exact w disk s) (body disk)
      (fun _ w => stop disk = none ∧ Represents crc32 exact w disk (update version s (stage disk)))
      (fun e w => stop disk = some e ∧
        Represents crc32 exact w disk (update version s (stage disk))))
    (htouch : Within (OnlyTouches (· = disk.blockIo.device)) (body disk))
    (s : ℕ → State TableVersion) :
    Triple (RepresentsAll crc32 exact all s) (body disk)
      (fun _ w => stop disk = none ∧ RepresentsAll crc32 exact all (Function.update s
        disk.blockIo.device (update version (s disk.blockIo.device) (stage disk))) w)
      (fun e w => stop disk = some e ∧ RepresentsAll crc32 exact all (Function.update s
        disk.blockIo.device (update version (s disk.blockIo.device) (stage disk))) w) := by
  have hothers {w w' : World} (hw : RepresentsAll crc32 exact all s w)
      (hnew : Represents crc32 exact w' disk
        (update version (s disk.blockIo.device) (stage disk)))
      (ht : OnlyTouches (· = disk.blockIo.device) w w') :
      RepresentsAll crc32 exact all (Function.update s disk.blockIo.device
        (update version (s disk.blockIo.device) (stage disk))) w' := by
    intro d hd
    by_cases he : d.blockIo.device = disk.blockIo.device
    · have hsame : d = disk := List.inj_on_of_nodup_map hdistinct hd hmem he
      subst hsame
      rw [Function.update_self]
      exact hnew
    · rw [Function.update_of_ne he]
      exact represents_of_devices_eq crc32 (ht.devices _ he) (hw d hd)
  intro w hw
  have hrun := (hbody (s disk.blockIo.device)).within htouch w w ⟨rfl, hw disk hmem⟩
  rcases hexec : exec (body disk) w with ⟨res, w'⟩
  rw [hexec] at hrun
  cases res with
  | ok a => exact ⟨hrun.1.1, hothers hw hrun.1.2 hrun.2⟩
  | error e => exact ⟨hrun.1.1, hothers hw hrun.1.2 hrun.2⟩

/-- The loop over the modified disks computes `runStates`. -/
theorem triple_forModified {disks : List GptDisk} (hsub : disks ⊆ all)
    (hbody : ∀ disk ∈ disks, ∀ s, Triple (fun w => Represents crc32 exact w disk s) (body disk)
      (fun _ w => stop disk = none ∧ Represents crc32 exact w disk (update version s (stage disk)))
      (fun e w => stop disk = some e ∧
        Represents crc32 exact w disk (update version s (stage disk))))
    (htouch : ∀ disk, Within (OnlyTouches (· = disk.blockIo.device)) (body disk))
    (s : ℕ → State TableVersion) :
    Triple (RepresentsAll crc32 exact all s) (forModified body disks)
      (fun _ w => runStop stop disks = none ∧
        RepresentsAll crc32 exact all (runStates stop stage version disks s) w)
      (fun e w => runStop stop disks = some e ∧
        RepresentsAll crc32 exact all (runStates stop stage version disks s) w) := by
  induction disks generalizing s with
  | nil => exact triple_pure (fun w hw => ⟨rfl, hw⟩)
  | cons disk disks ih =>
    have hmem : disk ∈ all := hsub List.mem_cons_self
    have htail := ih (fun d hd => hsub (List.mem_cons_of_mem _ hd))
      (fun d hd => hbody d (List.mem_cons_of_mem _ hd))
    have hhead := triple_body crc32 hdistinct hmem (hbody disk List.mem_cons_self) (htouch disk) s
    rw [forModified_cons]
    simp only [runStop, List.findSome?_cons, runStates]
    split_ifs with hm hs
    · rw [Option.isNone_iff_eq_none] at hs
      refine triple_bind (hhead.conseq (fun _ hw => hw) (fun _ _ hw => hw) ?_) ?_
      · intro e w hw
        rw [hs] at hw
        cases hw.1
      · intro _
        rw [hs]
        exact (htail _).conseq (fun w hw => hw.2) (fun _ _ hw => hw) (fun _ _ hw => hw)
    · refine triple_bind (hhead.conseq (fun _ hw => hw) (fun _ _ hw => hw) ?_) ?_
      · intro e w hw
        rw [hw.1]
        exact ⟨rfl, hw.2⟩
      · intro _ w hw
        exact absurd (Option.isNone_iff_eq_none.mpr hw.1) hs
    · exact htail s

end Loop

end ProjectMu
