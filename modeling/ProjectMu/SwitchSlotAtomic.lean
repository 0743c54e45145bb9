import ProjectMu.SwitchSlotOutcome

/-!
# The slot switch is atomic

Where no power is lost and the rollback can write, a run of `switchSlotEntry` ends with
the switched tables in both copies of every modified disk and the boot LU of the target
slot, or with an error, the tables as they were loaded and the old boot LU. Without a
confirmed switch it writes nothing, and it never writes an unmodified disk.
-/

namespace ProjectMu

open ByteCodec ByteRange CrashLogic TwoCopy SlotSwitch

variable (crc32 : List Byte → BitVec 32)

section Entry

variable {w : World} {handles : Except EfiError (List Handle)} {allocated : Bool}
  {loaded disks : List GptDisk} {currentSlot : AbSlot}

/-- What the application has in memory when it asks for confirmation. -/
structure Prepared (w : World) (handles : Except EfiError (List Handle)) (allocated : Bool)
    (loaded disks : List GptDisk) (currentSlot : AbSlot) : Prop where
  load : loadGptDisks crc32 w.devices handles allocated = .ok loaded
  detect : detectActiveSlot loaded = .ok currentSlot
  switch : ∃ pairCount, pairCount ≠ 0 ∧
    switchAllGptPairs loaded currentSlot currentSlot.other 0 = .ok (disks, pairCount)

/-- The switch is prepared, and the first deciding key press confirms it. -/
def Confirmed (w : World) (handles : Except EfiError (List Handle)) (allocated : Bool) : Prop :=
  (scanKeys w.keys).1 = .ok () ∧
    ∃ loaded disks currentSlot, Prepared crc32 w handles allocated loaded disks currentSlot

theorem exec_exitOnKey (c : EfiM Unit) (w : World) : (exec (exitOnKey c) w).1 = (exec c w).1 ∧
    ∃ keys, (exec (exitOnKey c) w).2 = { (exec c w).2 with keys := keys } := by
  unfold exitOnKey
  rw [exec_ofFun]
  rcases exec c w with ⟨res, w'⟩
  cases res with
  | ok a => exact ⟨rfl, w'.keys, rfl⟩
  | error stop =>
    cases stop with
    | status e =>
      dsimp only
      split_ifs
      · exact ⟨rfl, w'.keys, rfl⟩
      · exact ⟨rfl, w'.keys.tail, rfl⟩
    | powerLoss => exact ⟨rfl, w'.keys, rfl⟩
    | awaitingKey => exact ⟨rfl, w'.keys, rfl⟩

theorem Prepared.unique {loaded' disks' : List GptDisk} {slot' : AbSlot}
    (h : Prepared crc32 w handles allocated loaded disks currentSlot)
    (h' : Prepared crc32 w handles allocated loaded' disks' slot') :
    loaded' = loaded ∧ disks' = disks ∧ slot' = currentSlot := by
  obtain rfl : loaded' = loaded := Except.ok.inj (h'.load.symm.trans h.load)
  obtain rfl : slot' = currentSlot := Except.ok.inj (h'.detect.symm.trans h.detect)
  obtain ⟨n, -, hn⟩ := h.switch
  obtain ⟨n', -, hn'⟩ := h'.switch
  exact ⟨rfl, (Prod.mk.inj (Except.ok.inj (hn'.symm.trans hn))).1, rfl⟩

/-- With a prepared switch the next key that decides is awaited. -/
theorem exec_switchSlotSteps_of_prepared (plan : UpdatePlan)
    (h : Prepared crc32 w handles allocated loaded disks currentSlot) :
    exec (switchSlotSteps crc32 plan handles allocated) w =
      match (scanKeys w.keys).1 with
      | .ok _ => exec (updateStorages crc32 plan currentSlot.other disks)
        { w with keys := (scanKeys w.keys).2 }
      | .error stop => (.error stop, { w with keys := (scanKeys w.keys).2 }) := by
  obtain ⟨n, hn, hswitch⟩ := h.switch
  have htarget : (if currentSlot = .a then .b else .a) = currentSlot.other := by
    cases currentSlot <;> rfl
  unfold switchSlotSteps
  simp only [exec_bind, loadDisks, exec_ofFun, h.load, h.detect, htarget, hswitch, ofExcept,
    Except.mapError, exec_pure, hn, if_false, waitForConfirmation]
  cases (scanKeys w.keys).1 <;> rfl

/-- Without a prepared switch the run ends before any key is read. -/
theorem exec_switchSlotSteps_of_not_prepared (plan : UpdatePlan)
    (h : ¬ ∃ loaded disks currentSlot,
      Prepared crc32 w handles allocated loaded disks currentSlot) :
    ∃ stop, exec (switchSlotSteps crc32 plan handles allocated) w = (.error stop, w) := by
  unfold switchSlotSteps
  simp only [exec_bind, loadDisks, exec_ofFun]
  cases hload : loadGptDisks crc32 w.devices handles allocated with
  | error e => exact ⟨.status e, rfl⟩
  | ok loaded =>
    simp only [Except.mapError]
    cases hdetect : detectActiveSlot loaded with
    | error e => exact ⟨.status e, rfl⟩
    | ok slot =>
      have htarget : (if slot = .a then .b else .a) = slot.other := by cases slot <;> rfl
      simp only [ofExcept, exec_pure, htarget]
      cases hswitch : switchAllGptPairs loaded slot slot.other 0 with
      | error e => exact ⟨.status e, rfl⟩
      | ok result =>
        by_cases hn : result.2 = 0
        · refine ⟨.status .notFound, ?_⟩
          simp only [exec_pure, hn, if_true]
          rfl
        · exact absurd ⟨loaded, result.1, slot, hload, hdetect, result.2, hn, hswitch⟩ h

/-- A run either stops before the first write or is the update of a prepared switch. -/
theorem switchSlotEntry_cases (plan : UpdatePlan) (w : World)
    (handles : Except EfiError (List Handle)) (allocated : Bool) :
    (¬ Confirmed crc32 w handles allocated ∧ ∃ stop keys,
      exec (switchSlotEntry crc32 plan handles allocated) w =
        (.error stop, { w with keys := keys })) ∨
    ∃ loaded disks currentSlot keys keys',
      Prepared crc32 w handles allocated loaded disks currentSlot ∧
      (scanKeys w.keys).1 = .ok () ∧
      exec (switchSlotEntry crc32 plan handles allocated) w =
        ((exec (updateStorages crc32 plan currentSlot.other disks) { w with keys := keys }).1,
          { (exec (updateStorages crc32 plan currentSlot.other disks)
            { w with keys := keys }).2 with keys := keys' }) := by
  unfold switchSlotEntry
  obtain ⟨hres, keys', hstate⟩ :=
    exec_exitOnKey (switchSlotSteps crc32 plan handles allocated) w
  by_cases hprep : ∃ loaded disks currentSlot,
      Prepared crc32 w handles allocated loaded disks currentSlot
  · obtain ⟨loaded, disks, currentSlot, hprep⟩ := hprep
    rw [exec_switchSlotSteps_of_prepared crc32 plan hprep] at hres hstate
    cases hscan : (scanKeys w.keys).1 with
    | ok a =>
      rw [hscan] at hres hstate
      exact Or.inr ⟨loaded, disks, currentSlot, (scanKeys w.keys).2, keys', hprep, rfl,
        Prod.ext hres hstate⟩
    | error stop =>
      rw [hscan] at hres hstate
      refine Or.inl ⟨fun hconf => ?_, stop, keys', Prod.ext hres hstate⟩
      exact nomatch hscan.symm.trans hconf.1
  · obtain ⟨stop, hstop⟩ := exec_switchSlotSteps_of_not_prepared crc32 plan hprep
    rw [hstop] at hres hstate
    exact Or.inl ⟨fun hconf => hprep hconf.2, stop, keys', Prod.ext hres hstate⟩

/-- Both copies of every modified disk are the switched table, with their CRCs. -/
def TablesWritten (w' : World) (disks : List GptDisk) : Prop :=
  ∀ disk ∈ disks, disk.modified = true → ∀ side,
    ReadsCopy crc32 (w'.devices disk.blockIo.device) disk.blockIo (disk.sideHeader side).myLBA
      disk.entryArraySize (sealHeader crc32 (disk.sideHeader side) (disk.sideEntries side))
      (disk.sideEntries side)

/-- Both copies of every disk are, byte for byte, the headers and arrays as loaded. -/
def TablesKept (w' : World) (loaded : List GptDisk) : Prop :=
  ∀ disk ∈ loaded, ∀ side,
    HoldsTable (w'.devices disk.blockIo.device) disk.blockIo (disk.sideHeader side)
      (disk.sideEntries side)

theorem tablesKept_of_devices_eq {w' : World}
    (hload : loadGptDisks crc32 w.devices handles allocated = .ok loaded)
    (hdevices : w'.devices = w.devices) : TablesKept w' loaded := by
  intro disk hd side
  obtain ⟨handle, hacc⟩ := loadGptDisks_accepted crc32 hload disk hd
  have hself := hacc.asLoaded_eq crc32
  rw [← hself] at hacc
  have hholds := (hacc.copy crc32 side).2.2.2
  rw [hdevices]
  cases side with
  | primary => rwa [← hself]
  | backup => rwa [← hself]

theorem Switched.tablesKept {w' : World} (h : Switched crc32 w loaded disks)
    (hw' : ∀ disk ∈ disks, Represents crc32 False w' disk (State.both .original)) :
    TablesKept w' loaded := by
  intro before hb side
  rw [← h.loaded] at hb
  obtain ⟨disk, hd, rfl⟩ := List.mem_map.mp hb
  obtain ⟨handle, hacc⟩ := h.accepted disk hd
  have hside := hw' disk hd side
  rw [State.copy_both] at hside
  have hholds : HoldsTable (w'.devices disk.blockIo.device) disk.blockIo
      (disk.sealedHeader crc32 .original side) (disk.entriesOf .original side) := hside
  rw [hacc.sealedHeader_original crc32 side] at hholds
  cases side with
  | primary => exact hholds
  | backup => exact hholds

theorem Prepared.switched (hprep : Prepared crc32 w handles allocated loaded disks currentSlot)
    (hdistinct : (loaded.map (·.blockIo.device)).Nodup)
    (hapart : ∀ disk ∈ loaded, disk.regions.Pairwise Region.Disjoint) :
    Switched crc32 w loaded disks := by
  obtain ⟨n, -, hswitch⟩ := hprep.switch
  exact switched_of_load crc32 hprep.load hdistinct hapart hswitch

/-- On distinct devices an unmodified disk is on none of the modified ones. -/
theorem not_modifiedDevice (hdistinct : (disks.map (·.blockIo.device)).Nodup) {disk : GptDisk}
    (hd : disk ∈ disks) (hm : disk.modified = false) :
    ¬ ModifiedDevice disks disk.blockIo.device := by
  rintro ⟨disk', hd', hm', hdevice⟩
  obtain rfl := List.inj_on_of_nodup_map hdistinct hd' hd hdevice
  exact Bool.false_ne_true (hm.symm.trans hm')

/-- How a run of the application may end: with the switched tables and the boot LU of the
target slot, or with an error, the tables as loaded and the old boot LU. -/
structure AtomicRun (w : World) (handles : Except EfiError (List Handle)) (allocated : Bool)
    (result : Except Stop Unit) (w' : World) : Prop where
  outcome : match result with
    | .ok _ => ∃ loaded disks currentSlot,
      Prepared crc32 w handles allocated loaded disks currentSlot ∧
        TablesWritten crc32 w' disks ∧ w'.bootLu = bootLuOf currentSlot.other
    | .error _ => w'.bootLu = w.bootLu ∧
      ∀ loaded, loadGptDisks crc32 w.devices handles allocated = .ok loaded → TablesKept w' loaded
  unconfirmed : ¬ Confirmed crc32 w handles allocated →
    w'.devices = w.devices ∧ w'.writes = w.writes
  unmodified : ∀ loaded disks currentSlot,
    Prepared crc32 w handles allocated loaded disks currentSlot →
      ∀ disk ∈ disks, disk.modified = false → NotWritten w w' disk.blockIo.device

/-- Where no power is lost and the rollback can write, the slot switch is atomic. -/
theorem switchSlotEntry_atomic (plan : UpdatePlan)
    (hstorages : ∀ loaded, loadGptDisks crc32 w.devices handles allocated = .ok loaded →
      (loaded.map (·.blockIo.device)).Nodup ∧
        ∀ disk ∈ loaded, disk.regions.Pairwise Region.Disjoint)
    (hcommit : ∀ device call, (plan.commit device).outcome call ≠ .powerLoss)
    (hrollback : ∀ device call, call ≠ .flush → (plan.rollback device).outcome call = .success)
    (hflush : ∀ device, (plan.rollback device).outcome .flush ≠ .powerLoss)
    (hboot : ∀ lu, plan.failedBootLu lu = lu) :
    AtomicRun crc32 w handles allocated (exec (switchSlotEntry crc32 plan handles allocated) w).1
      (exec (switchSlotEntry crc32 plan handles allocated) w).2 := by
  obtain ⟨hconf, stop, keys, hrun⟩ | ⟨loaded, disks, slot, keys, keys', hprep, hscan, hrun⟩ :=
    switchSlotEntry_cases crc32 plan w handles allocated
  · rw [hrun]
    exact ⟨⟨rfl, fun loaded hload => tablesKept_of_devices_eq crc32 hload rfl⟩,
      fun _ => ⟨rfl, rfl⟩, fun _ _ _ _ _ _ _ => ⟨rfl, rfl⟩⟩
  obtain ⟨hdistinct, hapart⟩ := hstorages loaded hprep.load
  have h := hprep.switched crc32 hdistinct hapart
  have hrep : RepresentsAll crc32 False disks (fun _ => State.both .original)
      { w with keys := keys } :=
    fun disk hd => represents_of_devices_eq crc32 rfl (h.representsAll False disk hd)
  have htables := triple_updateStorages crc32 h
    (fun disk _ (hfalse : False) =>
      (hfalse.elim : Disruptive crc32 (plan.commit disk.blockIo.device) disk))
    (fun _ _ hfalse => hfalse.elim) slot.other _ hrep
  have hlu := triple_bootLu crc32 hboot slot.other disks w.bootLu { w with keys := keys } rfl
  have hwrites := onlyWrites_updateStorages crc32 plan slot.other disks { w with keys := keys }
  rw [hrun]
  refine ⟨?_, fun hconf => absurd ⟨hscan, loaded, disks, slot, hprep⟩ hconf, ?_⟩
  · rcases hexec : exec (updateStorages crc32 plan slot.other disks) { w with keys := keys }
      with ⟨res, w'⟩
    rw [hexec] at htables hlu
    cases res with
    | ok a =>
      refine ⟨loaded, disks, slot, hprep, fun disk hd hm side => ?_, hlu⟩
      have hside := htables.2 disk hd side
      rw [finalState_of_succeeds htables.1 hd hm, State.copy_both] at hside
      exact (holds_iff_readsCopy crc32 (h.committable hd)).mp hside
    | error stop =>
      refine ⟨hlu, fun loaded' hload' => ?_⟩
      obtain rfl := Except.ok.inj (hprep.load.symm.trans hload')
      refine Switched.tablesKept crc32 h (fun disk hd => ?_)
      have hdisk := htables.2 disk hd
      rw [finalState_of_not_succeeds htables.1 hcommit hrollback hflush hd] at hdisk
      exact represents_of_devices_eq crc32 rfl hdisk
  · intro loaded' disks' slot' hprep' disk hd hm
    obtain ⟨rfl, rfl, rfl⟩ := hprep.unique crc32 hprep'
    exact hwrites.notWritten (not_modifiedDevice h.distinct hd hm)

theorem switchSlotEntry_atomic_failingCommit :
    AtomicRun efiCrc32 xblWorld (.ok [smallHandle 0]) true
      (exec (switchSlotEntry efiCrc32 failingCommit (.ok [smallHandle 0]) true) xblWorld).1
      (exec (switchSlotEntry efiCrc32 failingCommit (.ok [smallHandle 0]) true) xblWorld).2 := by
  refine switchSlotEntry_atomic efiCrc32 failingCommit ?_ ?_ ?_ ?_ (fun _ => rfl)
  · intro loaded hload
    have hxbl : [xblDisk] = loaded := Except.ok.inj (loadGptDisks_xbl.symm.trans hload)
    rw [← hxbl]
    exact ⟨List.nodup_singleton _, by simpa using xblDisk_apart⟩
  · intro _ call
    change (if call = .entries .primary then CallOutcome.failure (.driver 7) else .success) ≠ _
    split_ifs <;> exact nofun
  · intro _ call _
    change (if call = .flush then CallOutcome.success else .success) = .success
    exact ite_self _
  · exact fun _ => nofun

end Entry

end ProjectMu
