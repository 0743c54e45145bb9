import ProjectMu.GptCommitLoop
import ProjectMu.GptSwitchPair

/-!
# A commit cut short

Switching the pairs in memory changes the current arrays of the disks and nothing the
commit relies on, so the disks of an accepted storage stay `Committable`, with both copies
of the original table on the device. Wherever a commit of the modified disks stops, every
disk keeps a copy that the loader reads and that is one of the two tables.
-/

namespace ProjectMu

open ByteCodec ByteRange CrashLogic TwoCopy

section Switch

variable {disks disks' : List GptDisk} {refA refB : EntryRef} {currentSlot targetSlot : AbSlot}

theorem switchGptPair_sameTables
    (h : switchGptPair disks refA refB currentSlot targetSlot = .ok disks') :
    SameTables disks disks' := by
  unfold switchGptPair at h
  split at h
  · simp only [ite_error_eq_ok] at h
    obtain ⟨-, -, -, -, hok⟩ := h
    rw [← Except.ok.inj hok]
    exact sameTables_switchedDisks _ _ _ _ _
  · cases h

theorem switchEntry_sameTables {state state' : List GptDisk × ℕ} {ref : EntryRef}
    (h : switchEntry currentSlot targetSlot state ref = .ok state') :
    SameTables state.1 state'.1 := by
  unfold switchEntry at h
  split at h
  · cases h
    rfl
  · split at h
    · cases h
      rfl
    · split at h
      · cases h
        rfl
      · cases h
      · rename_i disks hpair
        cases h
        exact switchGptPair_sameTables hpair

theorem foldlM_switchEntry_sameTables {refs : List EntryRef} {state state' : List GptDisk × ℕ}
    (h : refs.foldlM (switchEntry currentSlot targetSlot) state = .ok state') :
    SameTables state.1 state'.1 := by
  induction refs generalizing state with
  | nil =>
    cases h
    rfl
  | cons ref refs ih =>
    rw [List.foldlM_cons] at h
    obtain ⟨state₁, hstep, hrest⟩ := except_bind_eq_ok.mp h
    exact (ih hrest).trans (switchEntry_sameTables hstep)

/-- Switching replaces the current arrays only, whatever the slots. -/
theorem switchAllGptPairs_sameTables {n n' : ℕ}
    (h : switchAllGptPairs disks currentSlot targetSlot n = .ok (disks', n')) :
    SameTables disks disks' :=
  foldlM_switchEntry_sameTables h

theorem SameTables.devices_eq (h : SameTables disks disks') :
    disks'.map (·.blockIo.device) = disks.map (·.blockIo.device) := by
  have hmap := congrArg (List.map (fun disk : GptDisk => disk.blockIo.device)) h
  simpa only [List.map_map, Function.comp_def, GptDisk.asLoaded] using hmap

end Switch

variable (crc32 : List Byte → BitVec 32)

section Accepted

variable {devices : ℕ → Store Byte} {handle : Handle} {disk : GptDisk}

/-- A disk just loaded is its own `asLoaded`. -/
theorem Accepted.asLoaded_eq (h : Accepted crc32 devices handle disk) :
    disk.asLoaded = disk := by
  ext1
  case primaryEntries => exact h.originalPrimaryEntries
  case backupEntries => exact h.originalBackupEntries
  case modified => exact h.unmodified.symm
  all_goals rfl

variable (h : Accepted crc32 devices handle disk.asLoaded)

include h

theorem Accepted.copy (side : Side) :
    CopyGeometry disk.blockIo (disk.sideHeader side) disk.entryArraySize ∧
      ValidHeader crc32 (disk.sideHeader side) (disk.sideHeader side).myLBA
        disk.blockIo.blockSize.toNat ∧
      crc32 (disk.entriesOf .original side) = (disk.sideHeader side).partitionEntryArrayCRC32 ∧
      HoldsTable (devices disk.blockIo.device) disk.blockIo (disk.sideHeader side)
        (disk.entriesOf .original side) := by
  cases side with
  | primary =>
    obtain ⟨hgeometry, -, hvalid, hcrc, hholds⟩ := (readsCopy_iff crc32).mp h.primary
    exact ⟨hgeometry, ⟨hvalid.signature, hvalid.headerSize, hvalid.blockSize_le, rfl, hvalid.crc⟩,
      hcrc, hholds⟩
  | backup =>
    obtain ⟨hgeometry, -, hvalid, hcrc, hholds⟩ := (readsCopy_iff crc32).mp h.backup
    exact ⟨hgeometry, ⟨hvalid.signature, hvalid.headerSize, hvalid.blockSize_le, rfl, hvalid.crc⟩,
      hcrc, hholds⟩

theorem Accepted.committable (hapart : disk.asLoaded.regions.Pairwise Region.Disjoint) :
    disk.Committable where
  geometry side := (h.copy crc32 side).1
  signature side := (h.copy crc32 side).2.1.signature
  headerSize side := (h.copy crc32 side).2.1.headerSize
  blockSize_le := (h.copy crc32 .primary).2.1.blockSize_le
  original side := by
    cases side with
    | primary => exact h.originalPrimaryHeader
    | backup => exact h.originalBackupHeader
  apart := hapart

/-- The originals are sealed already: a rollback writes the loaded headers themselves. -/
theorem Accepted.sealedHeader_original (side : Side) :
    disk.sealedHeader crc32 .original side = disk.sideHeader side := by
  have horiginal : disk.headerOf .original side = disk.sideHeader side := by
    cases side with
    | primary => exact h.originalPrimaryHeader
    | backup => exact h.originalBackupHeader
  obtain ⟨-, hvalid, hcrc, -⟩ := h.copy crc32 side
  unfold GptDisk.sealedHeader
  rw [horiginal]
  exact sealHeader_eq_self crc32 hvalid hcrc

theorem Accepted.represents {exact : Prop} {w : World} (hw : w.devices = devices) :
    Represents crc32 exact w disk (State.both .original) := by
  intro side
  rw [State.copy_both]
  change HoldsTable _ _ _ _
  rw [h.sealedHeader_original crc32 side, hw]
  exact (h.copy crc32 side).2.2.2

end Accepted

/-- The copies of one version on a device are those the loader reads. -/
theorem holds_iff_readsCopy {disk : GptDisk} (h : disk.Committable) {w : World}
    {version : TableVersion} {side : Side} :
    Holds crc32 w disk version side ↔
      ReadsCopy crc32 (w.devices disk.blockIo.device) disk.blockIo (disk.sideHeader side).myLBA
        disk.entryArraySize (disk.sealedHeader crc32 version side) (disk.entriesOf version side) := by
  have hmy := sealedHeader_myLBA crc32 h version side
  have hentries := sealedHeader_partitionEntryLBA crc32 h version side
  have hheader := h.headerOf_eq version side
  have hgeometry : CopyGeometry disk.blockIo (disk.sealedHeader crc32 version side)
      disk.entryArraySize := by
    obtain ⟨h1, h2, h3, h4, h5⟩ := h.geometry side
    rw [← hmy] at h1 h3
    rw [← hentries] at h2 h4
    exact ⟨h1, h2, h3, h4, h5⟩
  have hvalid : ValidHeader crc32 (disk.sealedHeader crc32 version side)
      (disk.sideHeader side).myLBA disk.blockIo.blockSize.toNat := by
    refine validHeader_sealHeader crc32 _ ?_ ?_ h.blockSize_le ?_
    · rw [hheader]
      exact h.signature side
    · rw [hheader]
      exact h.headerSize side
    · rw [hheader]
  rw [readsCopy_iff]
  exact ⟨fun hold => ⟨hgeometry, disk.length_entriesOf version side, hvalid, rfl, hold⟩,
    fun hreads => hreads.2.2.2.2⟩

/-- One copy on the device is the table as loaded or the switched table, and valid. -/
def IntactCopy (store : Store Byte) (before after : GptDisk) (side : Side) : Prop :=
  ReadsCopy crc32 store before.blockIo (before.sideHeader side).myLBA before.entryArraySize
    (before.sideHeader side) (before.sideEntries side) ∨
  ReadsCopy crc32 store before.blockIo (before.sideHeader side).myLBA before.entryArraySize
    (sealHeader crc32 (after.sideHeader side) (after.sideEntries side)) (after.sideEntries side)

section Loaded

variable {w : World} {handles : Except EfiError (List Handle)} {allocated : Bool}
  {loaded disks : List GptDisk} {currentSlot targetSlot : AbSlot} {n n' : ℕ}

/-- The setting of a commit: accepted storages on distinct devices with four separate
regions each, after a successful switch. -/
structure Switched (w : World) (loaded disks : List GptDisk) : Prop where
  accepted : ∀ disk ∈ disks, ∃ handle, Accepted crc32 w.devices handle disk.asLoaded
  apart : ∀ disk ∈ disks, disk.asLoaded.regions.Pairwise Region.Disjoint
  distinct : (disks.map (·.blockIo.device)).Nodup
  loaded : disks.map GptDisk.asLoaded = loaded

theorem switched_of_load (hload : loadGptDisks crc32 w.devices handles allocated = .ok loaded)
    (hdistinct : (loaded.map (·.blockIo.device)).Nodup)
    (hapart : ∀ disk ∈ loaded, disk.regions.Pairwise Region.Disjoint)
    (hswitch : switchAllGptPairs loaded currentSlot targetSlot n = .ok (disks, n')) :
    Switched crc32 w loaded disks := by
  have haccepted := loadGptDisks_accepted crc32 hload
  have htables := switchAllGptPairs_sameTables hswitch
  have hsame : disks.map GptDisk.asLoaded = loaded := by
    rw [htables]
    refine Eq.trans (List.map_congr_left ?_) (List.map_id loaded)
    intro disk hd
    obtain ⟨handle, hacc⟩ := haccepted disk hd
    exact hacc.asLoaded_eq crc32
  have hmem {disk : GptDisk} (hd : disk ∈ disks) : disk.asLoaded ∈ loaded := by
    rw [← hsame]
    exact List.mem_map_of_mem hd
  exact ⟨fun disk hd => haccepted _ (hmem hd), fun disk hd => hapart _ (hmem hd),
    htables.devices_eq ▸ hdistinct, hsame⟩

namespace Switched

variable {crc32} (h : Switched crc32 w loaded disks)

include h

theorem committable {disk : GptDisk} (hd : disk ∈ disks) : disk.Committable := by
  obtain ⟨handle, hacc⟩ := h.accepted disk hd
  exact hacc.committable crc32 (h.apart disk hd)

theorem representsAll (exact : Prop) :
    RepresentsAll crc32 exact disks (fun _ => State.both .original) w := by
  intro disk hd
  obtain ⟨handle, hacc⟩ := h.accepted disk hd
  exact hacc.represents crc32 rfl

/-- A version of the table on one copy is an intact copy, and there is no other. -/
theorem intactCopy_iff {w' : World} {disk : GptDisk} (hd : disk ∈ disks) {side : Side} :
    IntactCopy crc32 (w'.devices disk.blockIo.device) disk.asLoaded disk side ↔
      ∃ version, Holds crc32 w' disk version side := by
  obtain ⟨handle, hacc⟩ := h.accepted disk hd
  have hcommit := h.committable hd
  have hiff {version : TableVersion} := @holds_iff_readsCopy crc32 disk hcommit w' version side
  have horiginal : disk.asLoaded.sideEntries side = disk.entriesOf .original side := by
    cases side <;> rfl
  have hheader : disk.asLoaded.sideHeader side = disk.sideHeader side := by
    cases side <;> rfl
  unfold IntactCopy
  rw [horiginal, hheader]
  constructor
  · rintro (hold | hnew)
    · refine ⟨.original, hiff.mpr ?_⟩
      rw [hacc.sealedHeader_original crc32 side]
      exact hold
    · exact ⟨.switched, hiff.mpr hnew⟩
  · rintro ⟨version, hold⟩
    have hreads := hiff.mp hold
    cases version with
    | original =>
      rw [hacc.sealedHeader_original crc32 side] at hreads
      exact Or.inl hreads
    | switched => exact Or.inr hreads

theorem exists_intactCopy {w' : World} {disk : GptDisk} (hd : disk ∈ disks)
    {s : State TableVersion} {exact : Prop} (hrep : Represents crc32 exact w' disk s)
    (hs : s.Recoverable) :
    ∃ side, IntactCopy crc32 (w'.devices disk.blockIo.device) disk.asLoaded disk side := by
  obtain ⟨side, version, hcopy⟩ := hs
  refine ⟨side, (h.intactCopy_iff hd).mpr ⟨version, ?_⟩⟩
  have hside := hrep side
  rwa [hcopy] at hside

theorem getElem?_loaded {i : ℕ} {before after : GptDisk} (hb : loaded[i]? = some before)
    (ha : disks[i]? = some after) : after ∈ disks ∧ before = after.asLoaded := by
  refine ⟨List.mem_of_getElem? ha, ?_⟩
  rw [← h.loaded, List.getElem?_map, ha] at hb
  exact (Option.some.inj hb).symm

end Switched

/-- One commit over the modified disks, in terms of the two copies of each. -/
theorem triple_commitModifiedGptDisks (h : Switched crc32 w loaded disks) {exact : Prop}
    (plans : ℕ → CallPlan)
    (hplans : ∀ disk ∈ disks, exact → Disruptive crc32 (plans disk.blockIo.device) disk)
    (s : ℕ → State TableVersion) :
    Triple (RepresentsAll crc32 exact disks s) (commitModifiedGptDisks crc32 plans disks)
      (fun _ w' => runStop (fun disk => (plans disk.blockIo.device).stop) disks = none ∧
        RepresentsAll crc32 exact disks (runStates (fun disk => (plans disk.blockIo.device).stop)
          (fun disk => (plans disk.blockIo.device).stage) .switched disks s) w')
      (fun e w' => runStop (fun disk => (plans disk.blockIo.device).stop) disks = some e ∧
        RepresentsAll crc32 exact disks (runStates (fun disk => (plans disk.blockIo.device).stop)
          (fun disk => (plans disk.blockIo.device).stage) .switched disks s) w') :=
  triple_forModified crc32 h.distinct (List.Subset.refl disks)
    (fun disk hd s => commitGptDisk_refines crc32 (h.committable hd) (hplans disk hd) false s)
    (fun disk => touches_commitGptDisk crc32 (plans disk.blockIo.device) false rfl) s

/-- Wherever the commit of the modified disks is cut short, every disk keeps a valid copy
of the table as loaded or of the switched table. -/
theorem commitModifiedGptDisks_crash_safe
    (hload : loadGptDisks crc32 w.devices handles allocated = .ok loaded)
    (hdistinct : (loaded.map (·.blockIo.device)).Nodup)
    (hapart : ∀ disk ∈ loaded, disk.regions.Pairwise Region.Disjoint)
    (hswitch : switchAllGptPairs loaded currentSlot targetSlot n = .ok (disks, n'))
    (plans : ℕ → CallPlan) {i : ℕ} {before after : GptDisk} (hbefore : loaded[i]? = some before)
    (hafter : disks[i]? = some after) :
    ∃ side, IntactCopy crc32
      ((exec (commitModifiedGptDisks crc32 plans disks) w).2.devices before.blockIo.device)
      before after side := by
  have h := switched_of_load crc32 hload hdistinct hapart hswitch
  obtain ⟨hd, rfl⟩ := h.getElem?_loaded hbefore hafter
  have htriple := (triple_commitModifiedGptDisks crc32 h plans
    (fun _ _ (hfalse : False) => hfalse.elim) (fun _ => State.both .original)).conseq (fun _ hw => hw)
    (fun _ _ hw => hw.2) (fun _ _ hw => hw.2)
  have hfinal := htriple.final (h.representsAll False) after hd
  rw [runStates_apply _ _ _ _ h.distinct hd] at hfinal
  exact h.exists_intactCopy hd hfinal (update_recoverable _ rfl _)

end Loaded

section Xbl

/-- The storage of `xblDisk`, with slot A as the boot LU and a key press to confirm. -/
def xblWorld : World := ⟨fun _ => xblStore, 1, [0x01], []⟩

theorem xblDisk_apart : xblDisk.regions.Pairwise Region.Disjoint := smallDisk_apart efiCrc32 0 _ _

theorem switched_xbl : Switched efiCrc32 xblWorld [xblDisk] [xblSwitched] :=
  switched_of_load efiCrc32 (w := xblWorld) loadGptDisks_xbl (List.nodup_singleton _)
    (by simpa using xblDisk_apart) switchAllGptPairs_xbl

/-- Power is lost while the primary header of the storage is written. -/
theorem commitModifiedGptDisks_crash_safe_xbl : ∃ side, IntactCopy efiCrc32
    ((exec (commitModifiedGptDisks efiCrc32 (fun _ => .faultAt (.header .primary) .powerLoss)
      [xblSwitched]) xblWorld).2.devices xblDisk.blockIo.device) xblDisk xblSwitched side :=
  commitModifiedGptDisks_crash_safe efiCrc32 (w := xblWorld) (i := 0) loadGptDisks_xbl
    (List.nodup_singleton _) (by simpa using xblDisk_apart) switchAllGptPairs_xbl _ rfl rfl

end Xbl

end ProjectMu
