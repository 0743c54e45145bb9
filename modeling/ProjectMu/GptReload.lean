import ProjectMu.GptCrash

/-!
# Loading what a commit wrote

After a complete commit the loader accepts the storage again. It reads back the entry
arrays that were in memory, and headers that differ from those in memory in the two
checksums only.
-/

namespace ProjectMu

open ByteCodec ByteRange CrashLogic TwoCopy

variable (crc32 : List Byte → BitVec 32)

/-- The disk the loader returns for a storage that holds the current tables of `disk`. -/
def GptDisk.reloaded (disk : GptDisk) : GptDisk :=
  { disk with
    primaryHeader := disk.sealedHeader crc32 .switched .primary
    backupHeader := disk.sealedHeader crc32 .switched .backup
    originalPrimaryHeader := disk.sealedHeader crc32 .switched .primary
    originalBackupHeader := disk.sealedHeader crc32 .switched .backup
    originalPrimaryEntries := disk.primaryEntries
    originalBackupEntries := disk.backupEntries
    modified := false
    length_originalPrimaryEntries := disk.length_primaryEntries
    length_originalBackupEntries := disk.length_backupEntries }

section Reload

variable {w w' : World} {handle : Handle} {disk : GptDisk}

theorem Accepted.reloaded (h : Accepted crc32 w.devices handle disk.asLoaded)
    (hcommit : disk.Committable)
    (hholds : ∀ side, Holds crc32 w' disk .switched side) :
    Accepted crc32 w'.devices handle (disk.reloaded crc32) := by
  have hprimary := (holds_iff_readsCopy crc32 hcommit).mp (hholds .primary)
  have hbackup := (holds_iff_readsCopy crc32 hcommit).mp (hholds .backup)
  have hmy : (disk.sideHeader .primary).myLBA = primaryPartHeaderLba := h.primary_myLBA crc32
  have halternate : (disk.sideHeader .backup).myLBA = disk.primaryHeader.alternateLBA :=
    h.backup_myLBA crc32
  rw [hmy] at hprimary
  rw [halternate] at hbackup
  exact ⟨h.blockIo, h.physical, h.present, h.diskIo, h.allocates, h.size_le, h.alternate_le,
    h.same_count, h.same_size, hprimary, hbackup, rfl, rfl, rfl, rfl, rfl⟩

/-- A commit that ran to its end leaves the current tables in both copies. -/
theorem holds_of_commit (h : Accepted crc32 w.devices handle disk.asLoaded)
    (hcommit : disk.Committable) {plan : CallPlan}
    (hexec : exec (commitGptDisk crc32 plan disk false) w = (.ok (), w')) (side : Side) :
    Holds crc32 w' disk .switched side := by
  obtain ⟨hstop, hrep⟩ :=
    (commitGptDisk_refines crc32 hcommit (fun hfalse : False => hfalse.elim) false
      (State.both .original)).ok (h.represents crc32 rfl) hexec
  rw [plan.stage_of_stop_eq_none hstop] at hrep
  have hside := hrep side
  change RepresentsSide crc32 False w' disk side ((State.both TableVersion.switched).copy side)
    at hside
  rwa [State.copy_both] at hside

end Reload

theorem exists_exec_commitGptDisk {loaded disks : List GptDisk} (h : Switched crc32 w loaded disks)
    (hd : disk ∈ disks) {plan : CallPlan} (hstop : plan.stop = none) :
    ∃ w', exec (commitGptDisk crc32 plan disk false) w = (.ok (), w') := by
  have htriple := commitGptDisk_refines crc32 (h.committable hd)
    (fun hfalse : False => (hfalse.elim : Disruptive crc32 plan disk)) false (State.both .original)
  rcases hexec : exec (commitGptDisk crc32 plan disk false) w with ⟨res, w'⟩
  cases res with
  | ok a => exact ⟨w', rfl⟩
  | error e =>
    have herror := htriple.error (h.representsAll False disk hd) hexec
    rw [hstop] at herror
    exact absurd herror.1 (Option.some_ne_none e).symm

/-- Commit, then reload: the entry arrays come back as they were in memory, and the headers
up to their two checksums. -/
theorem commitGptDisk_reload {w w' : World} {handle : Handle} {loaded disks : List GptDisk}
    {before after : GptDisk} {i n n' : ℕ} {currentSlot targetSlot : AbSlot} {plan : CallPlan}
    (hload : loadGptDisk crc32 w.devices handle = .ok before)
    (hapart : before.regions.Pairwise Region.Disjoint) (hbefore : loaded[i]? = some before)
    (hswitch : switchAllGptPairs loaded currentSlot targetSlot n = .ok (disks, n'))
    (hafter : disks[i]? = some after)
    (hexec : exec (commitGptDisk crc32 plan after false) w = (.ok (), w')) :
    ∃ reloaded, loadGptDisk crc32 w'.devices handle = .ok reloaded ∧
      reloaded.primaryEntries = after.primaryEntries ∧
      reloaded.backupEntries = after.backupEntries ∧
      (∃ entryCrc crc, reloaded.primaryHeader =
        (after.primaryHeader.setEntryArrayCrc32 entryCrc).setCrc32 crc) ∧
      ∃ entryCrc crc, reloaded.backupHeader =
        (after.backupHeader.setEntryArrayCrc32 entryCrc).setCrc32 crc := by
  have haccepted := (loadGptDisk_eq_ok crc32).mp hload
  have hsame : after.asLoaded = before := by
    have hat := (switchAllGptPairs_sameTables hswitch).getElem? i
    rw [hafter, hbefore, Option.map_some, Option.map_some, Option.some.injEq,
      haccepted.asLoaded_eq crc32] at hat
    exact hat
  rw [← hsame] at haccepted hapart
  have hcommit := haccepted.committable crc32 hapart
  have hholds := holds_of_commit crc32 haccepted hcommit hexec
  refine ⟨after.reloaded crc32, ?_, rfl, rfl, ⟨_, _, rfl⟩, _, _, rfl⟩
  exact (loadGptDisk_eq_ok crc32).mpr (haccepted.reloaded crc32 hcommit hholds)

theorem commitGptDisk_reload_xbl : ∃ w', exec (commitGptDisk efiCrc32 .noFaults xblSwitched false)
      xblWorld = (.ok (), w') ∧
    ∃ reloaded, loadGptDisk efiCrc32 w'.devices (smallHandle 0) = .ok reloaded ∧
      reloaded.primaryEntries = xblSwitched.primaryEntries ∧
      reloaded.backupEntries = xblSwitched.backupEntries ∧
      (∃ entryCrc crc, reloaded.primaryHeader =
        (xblSwitched.primaryHeader.setEntryArrayCrc32 entryCrc).setCrc32 crc) ∧
      ∃ entryCrc crc, reloaded.backupHeader =
        (xblSwitched.backupHeader.setEntryArrayCrc32 entryCrc).setCrc32 crc := by
  have hstop : CallPlan.noFaults.stop = none := rfl
  obtain ⟨w', hexec⟩ := exists_exec_commitGptDisk efiCrc32 switched_xbl
    (List.mem_singleton.mpr rfl) hstop
  exact ⟨w', hexec, commitGptDisk_reload efiCrc32 (w := xblWorld) (i := 0) loadGptDisk_xbl
    xblDisk_apart rfl
    switchAllGptPairs_xbl rfl hexec⟩

end ProjectMu
