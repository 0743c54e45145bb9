import ProjectMu.GptCommit

/-!
# A commit is a two-copy update

`Represents` relates the contents of a storage to the abstract state of its two copies,
and `commitGptDisk_refines` shows that one run of `commitGptDisk` is one
`TwoCopy.update`, stopped at the stage the call plan determines.

With `exact` set, a copy the abstract state calls unusable really holds neither table;
this needs torn writes that hit neither table by chance.
-/

namespace ProjectMu

open ByteCodec ByteRange CrashLogic TwoCopy

inductive TableVersion
  | original
  | switched
  deriving DecidableEq, Repr

namespace GptDisk

variable (disk : GptDisk)

def sideHeader : Side → EfiPartitionTableHeader
  | .primary => disk.primaryHeader
  | .backup => disk.backupHeader

def sideEntries : Side → List Byte
  | .primary => disk.primaryEntries
  | .backup => disk.backupEntries

def headerOf : TableVersion → Side → EfiPartitionTableHeader
  | .original, .primary => disk.originalPrimaryHeader
  | .original, .backup => disk.originalBackupHeader
  | .switched, side => disk.sideHeader side

def entriesOf : TableVersion → Side → List Byte
  | .original, .primary => disk.originalPrimaryEntries
  | .original, .backup => disk.originalBackupEntries
  | .switched, side => disk.sideEntries side

@[simp] theorem length_entriesOf (version : TableVersion) (side : Side) :
    (disk.entriesOf version side).length = disk.entryArraySize := by
  cases version <;> cases side
  · exact disk.length_originalPrimaryEntries
  · exact disk.length_originalBackupEntries
  · exact disk.length_primaryEntries
  · exact disk.length_backupEntries

theorem entryArraySize_pos : 0 < disk.entryArraySize := by
  rw [disk.entryArraySize_eq]
  exact Nat.mul_pos disk.entries_pos (Nat.lt_of_lt_of_le (by norm_num) disk.entrySize_le)

theorem entriesOf_ne_nil (version : TableVersion) (side : Side) :
    disk.entriesOf version side ≠ [] := by
  apply List.ne_nil_of_length_pos
  rw [length_entriesOf]
  exact disk.entryArraySize_pos

def sideHeaderRegion (side : Side) : Region := headerRegion disk.blockIo (disk.sideHeader side)

def sideEntriesRegion (side : Side) : Region :=
  entriesRegion disk.blockIo (disk.sideHeader side) disk.entryArraySize

/-- What a commit relies on: both copies are readable, their header fields are sound, the
originals differ from the current headers in nothing, and the four regions are apart. -/
structure Committable : Prop where
  geometry : ∀ side, CopyGeometry disk.blockIo (disk.sideHeader side) disk.entryArraySize
  signature : ∀ side, (disk.sideHeader side).header.signature = efiPtabHeaderId
  headerSize : ∀ side, (disk.sideHeader side).header.headerSize.toNat = headerCodec.size
  blockSize_le : headerCodec.size ≤ disk.blockIo.blockSize.toNat
  original : ∀ side, disk.headerOf .original side = disk.sideHeader side
  apart : disk.regions.Pairwise Region.Disjoint

variable {disk}

theorem Committable.headerOf_eq (h : disk.Committable) (version : TableVersion) (side : Side) :
    disk.headerOf version side = disk.sideHeader side := by
  cases version with
  | original => exact h.original side
  | switched => rfl

theorem Committable.headers_apart (h : disk.Committable) {s t : Side} (hne : s ≠ t) :
    (disk.sideHeaderRegion s).Disjoint (disk.sideHeaderRegion t) := by
  have hpair := h.apart
  simp only [regions, List.pairwise_cons, List.mem_cons, List.not_mem_nil, or_false,
    forall_eq_or_imp, forall_eq] at hpair
  cases s <;> cases t
  · exact absurd rfl hne
  · exact hpair.1.2.2
  · exact Region.disjoint_comm.mp hpair.1.2.2
  · exact absurd rfl hne

theorem Committable.entries_apart (h : disk.Committable) {s t : Side} (hne : s ≠ t) :
    (disk.sideEntriesRegion s).Disjoint (disk.sideEntriesRegion t) := by
  have hpair := h.apart
  simp only [regions, List.pairwise_cons, List.mem_cons, List.not_mem_nil, or_false,
    forall_eq_or_imp, forall_eq] at hpair
  cases s <;> cases t
  · exact absurd rfl hne
  · exact hpair.2.1.1
  · exact Region.disjoint_comm.mp hpair.2.1.1
  · exact absurd rfl hne

theorem Committable.header_entries_apart (h : disk.Committable) (s t : Side) :
    (disk.sideHeaderRegion s).Disjoint (disk.sideEntriesRegion t) := by
  have hpair := h.apart
  simp only [regions, List.pairwise_cons, List.mem_cons, List.not_mem_nil, or_false,
    forall_eq_or_imp, forall_eq] at hpair
  cases s <;> cases t
  · exact hpair.1.1
  · exact hpair.1.2.1
  · exact Region.disjoint_comm.mp hpair.2.1.2
  · exact Region.disjoint_comm.mp hpair.2.2.1

end GptDisk

variable (crc32 : List Byte → BitVec 32)

/-- The header a commit of one version writes to one copy. -/
def GptDisk.sealedHeader (disk : GptDisk) (version : TableVersion) (side : Side) :
    EfiPartitionTableHeader :=
  sealHeader crc32 (disk.headerOf version side) (disk.entriesOf version side)

/-- The storage of `disk` holds one version of its table in one copy. -/
def Holds (w : World) (disk : GptDisk) (version : TableVersion) (side : Side) : Prop :=
  HoldsTable (w.devices disk.blockIo.device) disk.blockIo (disk.sealedHeader crc32 version side)
    (disk.entriesOf version side)

def RepresentsSide (exact : Prop) (w : World) (disk : GptDisk) (side : Side) :
    Option TableVersion → Prop
  | some version => Holds crc32 w disk version side
  | none => exact → ∀ version, ¬ Holds crc32 w disk version side

def Represents (exact : Prop) (w : World) (disk : GptDisk) (s : State TableVersion) : Prop :=
  ∀ side, RepresentsSide crc32 exact w disk side (s.copy side)

theorem updateGptHeaderCrc_eq {header : EfiPartitionTableHeader} {entries : List Byte}
    (hsize : header.header.headerSize.toNat = headerCodec.size) (hne : entries ≠ []) :
    updateGptHeaderCrc crc32 header entries = .ok (sealHeader crc32 header entries) := by
  let counted := header.setEntryArrayCrc32 (crc32 entries)
  have htake : (clearedHeader counted).take header.header.headerSize.toNat =
      clearedHeader counted := @clearedHeader_take counted hsize
  unfold updateGptHeaderCrc
  rw [calculateCrc32_of_ne_nil crc32 hne]
  change (calculateCrc32 crc32 ((clearedHeader counted).take
    header.header.headerSize.toNat)).bind
    (fun crc => .ok (counted.setCrc32 crc)) = _
  rw [htake, calculateCrc32_of_ne_nil crc32 (clearedHeader_ne_nil counted)]
  rfl

section Store

variable {disk : GptDisk} (h : disk.Committable)

include h

theorem sealedHeader_myLBA (version : TableVersion) (side : Side) :
    (disk.sealedHeader crc32 version side).myLBA = (disk.sideHeader side).myLBA := by
  unfold GptDisk.sealedHeader
  rw [h.headerOf_eq]
  rfl

theorem sealedHeader_partitionEntryLBA (version : TableVersion) (side : Side) :
    (disk.sealedHeader crc32 version side).partitionEntryLBA =
      (disk.sideHeader side).partitionEntryLBA := by
  unfold GptDisk.sealedHeader
  rw [h.headerOf_eq]
  rfl

theorem Holds.of_agreeOn {w w' : World} {version : TableVersion} {side : Side}
    (hold : Holds crc32 w disk version side)
    (hh : (w'.devices disk.blockIo.device).AgreeOn (w.devices disk.blockIo.device)
      (disk.sideHeaderRegion side))
    (he : (w'.devices disk.blockIo.device).AgreeOn (w.devices disk.blockIo.device)
      (disk.sideEntriesRegion side)) : Holds crc32 w' disk version side := by
  have hhead := hh.read (n := headerCodec.size) h.blockSize_le
  have hent := he.read (n := disk.entryArraySize) le_rfl
  have h1 := hold.headerBytes
  have h2 := hold.entryBytes
  rw [sealedHeader_myLBA crc32 h] at h1
  rw [sealedHeader_partitionEntryLBA crc32 h, disk.length_entriesOf] at h2
  refine ⟨?_, ?_⟩
  · rw [sealedHeader_myLBA crc32 h]
    exact hhead.trans h1
  · rw [sealedHeader_partitionEntryLBA crc32 h, disk.length_entriesOf]
    exact hent.trans h2

/-- What one copy holds is decided by the two regions of that copy. -/
theorem holds_congr {w w' : World} {side : Side} (version : TableVersion)
    (hh : (w'.devices disk.blockIo.device).AgreeOn (w.devices disk.blockIo.device)
      (disk.sideHeaderRegion side))
    (he : (w'.devices disk.blockIo.device).AgreeOn (w.devices disk.blockIo.device)
      (disk.sideEntriesRegion side)) :
    Holds crc32 w disk version side ↔ Holds crc32 w' disk version side :=
  ⟨fun hold => hold.of_agreeOn crc32 h hh he, fun hold => hold.of_agreeOn crc32 h hh.symm he.symm⟩

theorem representsSide_congr {exact : Prop} {w w' : World} {side : Side}
    (content : Option TableVersion)
    (hh : (w'.devices disk.blockIo.device).AgreeOn (w.devices disk.blockIo.device)
      (disk.sideHeaderRegion side))
    (he : (w'.devices disk.blockIo.device).AgreeOn (w.devices disk.blockIo.device)
      (disk.sideEntriesRegion side)) :
    RepresentsSide crc32 exact w disk side content ↔
      RepresentsSide crc32 exact w' disk side content := by
  cases content with
  | some version => exact holds_congr crc32 h version hh he
  | none =>
    exact imp_congr Iff.rfl (forall_congr' (fun version =>
      not_congr (holds_congr crc32 h version hh he)))

/-- Writes to the entry array of one copy keep the other copy. -/
theorem representsSide_of_entries_written {exact : Prop} {w w' : World} {side other : Side}
    (hne : other ≠ side) {content : Option TableVersion}
    (hkeep : ∀ r, (disk.sideEntriesRegion side).Disjoint r →
      (w'.devices disk.blockIo.device).AgreeOn (w.devices disk.blockIo.device) r)
    (hw : RepresentsSide crc32 exact w disk other content) :
    RepresentsSide crc32 exact w' disk other content := by
  have hheader := hkeep _ (Region.disjoint_comm.mp (h.header_entries_apart other side))
  have hentries := hkeep _ (h.entries_apart (Ne.symm hne))
  exact (representsSide_congr crc32 h content hheader hentries).mp hw

/-- Writes to the header block of one copy keep the other copy. -/
theorem representsSide_of_header_written {exact : Prop} {w w' : World} {side other : Side}
    (hne : other ≠ side) {content : Option TableVersion}
    (hkeep : ∀ r, (disk.sideHeaderRegion side).Disjoint r →
      (w'.devices disk.blockIo.device).AgreeOn (w.devices disk.blockIo.device) r)
    (hw : RepresentsSide crc32 exact w disk other content) :
    RepresentsSide crc32 exact w' disk other content := by
  have hheader := hkeep _ (h.headers_apart (Ne.symm hne))
  have hentries := hkeep _ (h.header_entries_apart side other)
  exact (representsSide_congr crc32 h content hheader hentries).mp hw

end Store

section Plan

/-- The reason a call of the plan stops the commit, if it does. -/
def CallPlan.stopAt (plan : CallPlan) (call : CommitCall) : Option Stop :=
  match plan.outcome call, call with
  | .success, _ => none
  | .failure _, .block _ => some (.status .outOfResources)
  | .failure e, _ => some (.status e)
  | .powerLoss, _ => some .powerLoss

def CallPlan.stopIn (plan : CallPlan) (calls : List CommitCall) : Option Stop :=
  calls.findSome? plan.stopAt

def sideCalls (side : Side) : List CommitCall := [.entries side, .block side, .header side]

/-- The first stop of a whole commit. -/
def CallPlan.stop (plan : CallPlan) : Option Stop :=
  plan.stopIn (sideCalls .backup ++ sideCalls .primary ++ [.flush])

def CallPlan.stage (plan : CallPlan) : Stage :=
  if (plan.stopIn (sideCalls .backup)).isSome then .backupOpen
  else if (plan.stopIn (sideCalls .primary)).isSome then .primaryOpen
  else .done

end Plan

/-- The bytes a plan tears into a storage belong to neither version of its tables, and no
buffer allocation fails. -/
structure Disruptive (plan : CallPlan) (disk : GptDisk) : Prop where
  allocates : ∀ side, plan.stopAt (.block side) = none
  entries : ∀ side version, Store.read (plan.torn (.entries side))
    (disk.sideEntriesRegion side).offset disk.entryArraySize ≠ disk.entriesOf version side
  header : ∀ side version, Store.read (plan.torn (.header side))
    (disk.sideHeaderRegion side).offset headerCodec.size ≠
      headerCodec.encode (disk.sealedHeader crc32 version side)

theorem ofExcept_bind {α β : Type} {x : Except EfiError α} {a : α} (hx : x = .ok a)
    (f : α → EfiM β) : ofExcept x >>= f = f a := by
  subst hx
  exact pure_bind a f

/-- A write either reaches the storage whole or tears its own range. -/
theorem triple_writeDisk {plan : CallPlan} {call : CommitCall} {blockIo : BlockIo}
    {offset : BitVec 64} {data : List Byte} {P Q R : World → Prop}
    (hcall : ∀ side, call ≠ .block side)
    (hok : ∀ w w', P w → w'.devices blockIo.device =
      (w.devices blockIo.device).write offset.toNat data → Q w')
    (hstop : ∀ w w', P w → w'.devices blockIo.device =
      (w.devices blockIo.device).tear ⟨offset.toNat, data.length⟩ (plan.torn call) → R w') :
    Triple P (writeDisk plan call blockIo offset data)
      (fun _ w => plan.stopAt call = none ∧ Q w) (fun e w => plan.stopAt call = some e ∧ R w) := by
  intro w hw
  unfold writeDisk
  rw [exec_ofFun]
  have hset (store : Store Byte) : ((w.logWrite ⟨blockIo.device, ⟨offset.toNat, data.length⟩⟩).setStore
      blockIo.device store).devices blockIo.device = store := by
    simp [World.setStore]
  cases ho : plan.outcome call with
  | success => exact ⟨by simp [CallPlan.stopAt, ho], hok w _ hw (hset _)⟩
  | failure e =>
    have hs : plan.stopAt call = some (.status e) := by
      cases call <;> simp_all [CallPlan.stopAt]
    exact ⟨hs, hstop w _ hw (hset _)⟩
  | powerLoss =>
    have hs : plan.stopAt call = some .powerLoss := by simp [CallPlan.stopAt, ho]
    exact ⟨hs, hstop w _ hw (hset _)⟩

theorem length_headerBuffer {disk : GptDisk} (h : disk.Committable)
    (header : EfiPartitionTableHeader) :
    (splice (List.replicate disk.blockIo.blockSize.toNat (0 : Byte)) 0
      (headerCodec.encode header)).length = disk.blockIo.blockSize.toNat := by
  have hle := h.blockSize_le
  rw [length_splice, List.length_replicate]
  rw [headerCodec.length_encode, List.length_replicate]
  omega

/-- The block a header is written to. -/
theorem headerBuffer_region {disk : GptDisk} (h : disk.Committable) {side : Side}
    {offset : BitVec 64} (ho : offset.toNat = lbaOffset disk.blockIo (disk.sideHeader side).myLBA)
    (header : EfiPartitionTableHeader) :
    (⟨offset.toNat, (splice (List.replicate disk.blockIo.blockSize.toNat (0 : Byte)) 0
      (headerCodec.encode header)).length⟩ : Region) = disk.sideHeaderRegion side := by
  rw [length_headerBuffer h, ho]
  rfl

theorem read_headerBuffer {disk : GptDisk} (h : disk.Committable) (store : Store Byte)
    (offset : ℕ) (header : EfiPartitionTableHeader) :
    (store.write offset (splice (List.replicate disk.blockIo.blockSize.toNat (0 : Byte)) 0
      (headerCodec.encode header))).read offset headerCodec.size = headerCodec.encode header := by
  have hle : 0 + headerCodec.size ≤ disk.blockIo.blockSize.toNat := by
    rw [Nat.zero_add]
    exact h.blockSize_le
  have hself := Store.read_write_self store offset
    (splice (List.replicate disk.blockIo.blockSize.toNat (0 : Byte)) 0 (headerCodec.encode header))
  rw [length_headerBuffer h] at hself
  have hslice := congrArg (fun l => slice l 0 headerCodec.size) hself
  simp only [Store.slice_read _ _ _ _ _ hle, Nat.add_zero] at hslice
  rw [hslice, ← headerCodec.length_encode header]
  apply slice_splice_self
  rw [List.length_replicate, headerCodec.length_encode]
  exact hle

theorem read_tear_header {disk : GptDisk} (h : disk.Committable) (store : Store Byte)
    (junk : ℕ → Byte) (side : Side) :
    (store.tear (disk.sideHeaderRegion side) junk).read (disk.sideHeaderRegion side).offset
      headerCodec.size = Store.read junk (disk.sideHeaderRegion side).offset headerCodec.size := by
  have hself := Store.read_tear_self store (disk.sideHeaderRegion side) junk
  have hle : 0 + headerCodec.size ≤ (disk.sideHeaderRegion side).size := by
    rw [Nat.zero_add]
    exact h.blockSize_le
  have hslice := congrArg (fun l => slice l 0 headerCodec.size) hself
  simpa only [Store.slice_read _ _ _ _ _ hle, Nat.add_zero] using hslice

theorem triple_allocateZeroPool {plan : CallPlan} {side : Side} {size : ℕ} {P : World → Prop} :
    Triple P (allocateZeroPool plan (.block side) size)
      (fun buffer w => plan.stopAt (.block side) = none ∧ buffer = List.replicate size 0 ∧ P w)
      (fun e w => plan.stopAt (.block side) = some e ∧ P w) := by
  unfold allocateZeroPool
  cases ho : plan.outcome (.block side) with
  | success => exact triple_pure (fun w hw => ⟨by simp [CallPlan.stopAt, ho], rfl, hw⟩)
  | failure e => exact triple_throw (fun w hw => ⟨by simp [CallPlan.stopAt, ho], hw⟩)
  | powerLoss => exact triple_throw (fun w hw => ⟨by simp [CallPlan.stopAt, ho], hw⟩)

section Writes

variable {disk : GptDisk} (h : disk.Committable) {exact : Prop} {plan : CallPlan}
  (hplan : exact → Disruptive crc32 plan disk) {side other : Side} (hne : other ≠ side)
  {content : Option TableVersion} (version : TableVersion)

/-- The entry array of one copy is that of one version; its header may be anything. -/
def EntriesHeld (w : World) (disk : GptDisk) (version : TableVersion) (side : Side) : Prop :=
  (w.devices disk.blockIo.device).read (disk.sideEntriesRegion side).offset disk.entryArraySize =
    disk.entriesOf version side

include h hplan hne

theorem triple_writeGptEntryArray :
    Triple (fun w => RepresentsSide crc32 exact w disk other content)
      (writeGptEntryArray plan (.entries side) disk (disk.sealedHeader crc32 version side)
        (disk.entriesOf version side))
      (fun _ w => plan.stopAt (.entries side) = none ∧
        RepresentsSide crc32 exact w disk other content ∧ EntriesHeld w disk version side)
      (fun e w => plan.stopAt (.entries side) = some e ∧
        RepresentsSide crc32 exact w disk other content ∧
        RepresentsSide crc32 exact w disk side none) := by
  unfold writeGptEntryArray
  obtain ⟨offset, ho, hoff⟩ := exists_gptLbaToOffset (h.geometry side).entries_addressable
  have hlba := sealedHeader_partitionEntryLBA crc32 h version side
  rw [hlba]
  have hregion : (⟨offset.toNat, (disk.entriesOf version side).length⟩ : Region) =
      disk.sideEntriesRegion side := by rw [hoff, disk.length_entriesOf]; rfl
  rw [ofExcept_bind ho]
  refine triple_writeDisk (fun _ => nofun) ?_ ?_
  · intro w w' hw hw'
    refine ⟨representsSide_of_entries_written crc32 h hne (fun r hr => ?_) hw, ?_⟩
    · rw [hw']
      exact Store.agreeOn_write (hregion ▸ hr)
    · unfold EntriesHeld
      rw [hw', ← hregion]
      have hself := Store.read_write_self (w.devices disk.blockIo.device) offset.toNat
        (disk.entriesOf version side)
      rwa [disk.length_entriesOf] at hself
  · intro w w' hw hw'
    rw [hregion] at hw'
    refine ⟨representsSide_of_entries_written crc32 h hne (fun r hr => ?_) hw, ?_⟩
    · rw [hw']
      exact Store.agreeOn_tear hr
    · intro hexact version' hold
      have hbytes := hold.entryBytes
      rw [sealedHeader_partitionEntryLBA crc32 h, disk.length_entriesOf, hw'] at hbytes
      apply (hplan hexact).entries side version'
      rw [← hbytes]
      exact (Store.read_tear_self _ (disk.sideEntriesRegion side) _).symm

theorem triple_writeGptHeader :
    Triple (fun w => RepresentsSide crc32 exact w disk other content ∧
        EntriesHeld w disk version side)
      (writeGptHeader plan (.block side) (.header side) disk
        (disk.sealedHeader crc32 version side))
      (fun _ w => (plan.stopAt (.block side) = none ∧ plan.stopAt (.header side) = none) ∧
        RepresentsSide crc32 exact w disk other content ∧
        RepresentsSide crc32 exact w disk side (some version))
      (fun e w => (plan.stopAt (.block side) = some e ∨
          plan.stopAt (.block side) = none ∧ plan.stopAt (.header side) = some e) ∧
        RepresentsSide crc32 exact w disk other content ∧
        RepresentsSide crc32 exact w disk side none) := by
  unfold writeGptHeader
  obtain ⟨offset, ho, hoff⟩ := exists_gptLbaToOffset (h.geometry side).header_addressable
  have hlba := sealedHeader_myLBA crc32 h version side
  rw [hlba, ofExcept_bind ho]
  refine triple_bind (triple_allocateZeroPool.conseq (fun _ hw => hw) (fun _ _ hw => hw) ?_) ?_
  · rintro e w ⟨hs, hw, -⟩
    exact ⟨Or.inl hs, hw, fun hexact => absurd hs (by simp [(hplan hexact).allocates side])⟩
  intro buffer
  refine Triple.conseq (triple_writeDisk (P := fun w => plan.stopAt (.block side) = none ∧
      buffer = List.replicate disk.blockIo.blockSize.toNat 0 ∧
      RepresentsSide crc32 exact w disk other content ∧ EntriesHeld w disk version side)
    (Q := fun w => plan.stopAt (.block side) = none ∧
      RepresentsSide crc32 exact w disk other content ∧
      RepresentsSide crc32 exact w disk side (some version))
    (R := fun w => plan.stopAt (.block side) = none ∧
      RepresentsSide crc32 exact w disk other content ∧
      RepresentsSide crc32 exact w disk side none) (fun _ => nofun) ?_ ?_) (fun _ hw => hw)
    (fun _ _ hw => ⟨⟨hw.2.1, hw.1⟩, hw.2.2⟩) (fun _ _ hw => ⟨Or.inr ⟨hw.2.1, hw.1⟩, hw.2.2⟩)
  · rintro w w' ⟨hblock, rfl, hother, hheld⟩ hw'
    have hregion := headerBuffer_region h hoff (disk.sealedHeader crc32 version side)
    refine ⟨hblock, representsSide_of_header_written crc32 h hne (fun r hr => ?_) hother, ?_⟩
    · rw [hw']
      exact Store.agreeOn_write (hregion ▸ hr)
    · refine ⟨?_, ?_⟩
      · rw [sealedHeader_myLBA crc32 h, hw', ← hoff]
        exact read_headerBuffer h _ _ _
      · rw [sealedHeader_partitionEntryLBA crc32 h, disk.length_entriesOf, hw']
        refine Eq.trans (Store.AgreeOn.read (r := disk.sideEntriesRegion side) ?_ le_rfl) hheld
        exact Store.agreeOn_write (hregion ▸ h.header_entries_apart side side)
  · rintro w w' ⟨hblock, rfl, hother, hheld⟩ hw'
    have hregion := headerBuffer_region h hoff (disk.sealedHeader crc32 version side)
    rw [hregion] at hw'
    refine ⟨hblock, representsSide_of_header_written crc32 h hne (fun r hr => ?_) hother, ?_⟩
    · rw [hw']
      exact Store.agreeOn_tear hr
    · intro hexact version' hold
      have hbytes := hold.headerBytes
      rw [sealedHeader_myLBA crc32 h, hw'] at hbytes
      apply (hplan hexact).header side version'
      rw [← hbytes]
      exact (read_tear_header h _ _ side).symm

end Writes

end ProjectMu
