import ProjectMu.DpuSnapshotPasses

/-!
# No register is read that is not safe to read

Over a whole boot the registers are read in at most two passes, none of them before the window
is mapped. Each pass stops at the version register of a dark block, and the table holds none of
the addresses that are known to reset the phone.
-/

namespace ProjectMu.DpuSnapshot

open ByteCodec ByteRange MapMemoryRegion

/-- The entries of the table that are disabled, as base and length, and the gap before the pipes:
reading these resets the phone. -/
def resettingBlocks : List (BitVec 32 × BitVec 32) := [
  (0x0AE55000, 0x080), (0x0AE55800, 0x200), (0x0AE56000, 0x040), (0x0AE56700, 0x150),
  (0x0AE57000, 0x080), (0x0AE57800, 0x200), (0x0AE58000, 0x040), (0x0AE58700, 0x150),
  (0x0AE24000, 0x1000)]

/-- A word of the window that no resetting block touches. -/
structure SafeAddress (address : BitVec 32) : Prop where
  aligned : address % 4 = 0
  inside : mdssBase.toNat ≤ address.toNat ∧
    address.toNat + 4 ≤ mdssBase.toNat + mdssSize.toNat
  apart : ∀ block ∈ resettingBlocks,
    address.toNat + 4 ≤ block.1.toNat ∨ block.1.toNat + block.2.toNat ≤ address.toNat

inductive GuardedPass : List RegisterRead → Prop
  | live {version : BitVec 32} {rest : List RegisterRead} (hlive : MdssLive version)
      (hrest : rest.map Prod.fst = tableAddresses) : GuardedPass ((mdssHwVersion, version) :: rest)
  | dark {version : BitVec 32} (hdark : ¬MdssLive version) :
      GuardedPass [(mdssHwVersion, version)]

/-- The window as the driver finds it usable: memory-mapped I/O before, and left alone, or all of
it uncached memory-mapped I/O now. -/
def MdssMapped (before after : MemorySpace) : Prop :=
  ((before mdssBase.toNat).map MemorySpaceDescriptor.gcdMemoryType = some .memoryMappedIo ∧
      after = before) ∨
    ∀ x, mdssBase.toNat ≤ x → x < mdssBase.toNat + mdssSize.toNat →
      after x = some ⟨.memoryMappedIo, efiMemoryUC ||| efiMemoryRuntime, efiMemoryUC⟩

variable {δ : Type*} {services : MemoryServices} {print : PrintLib}
  {mmioRead32 : BitVec 32 → δ → BitVec 32 × δ} {tag : String}

/-- The state that the driver is loaded in. -/
def SnapshotState.loaded (device : δ) (memorySpace : MemorySpace) : SnapshotState δ :=
  ⟨device, memorySpace, [], [], false⟩

def BootEvent.isReadyToBoot : BootEvent δ → Bool
  | .readyToBoot => true
  | _ => false

theorem safeAddress_regions : ∀ region ∈ mDpuRegions,
    region.base % 16 = 0 ∧ mdssBase.toNat ≤ region.base.toNat ∧
      region.base.toNat + region.length.toNat ≤ mdssBase.toNat + mdssSize.toNat ∧
      ∀ block ∈ resettingBlocks, region.base.toNat + region.length.toNat ≤ block.1.toNat ∨
        block.1.toNat + block.2.toNat ≤ region.base.toNat := by
  simp [mDpuRegions, resettingBlocks, mdssBase, mdssSize]

theorem mem_addresses {region : DpuRegion} {address : BitVec 32}
    (h : address ∈ region.addresses) :
    ∃ k, 4 * k + 4 ≤ region.length.toNat ∧ address = region.base + BitVec.ofNat 32 (4 * k) := by
  obtain ⟨line, hline, haddress⟩ := List.mem_flatMap.mp h
  obtain ⟨i, hi, rfl⟩ := List.mem_map.mp hline
  have hlt : i < region.length.toNat / 16 := List.mem_range.mp hi
  have hword (j : ℕ) (hj : j < 4) :
      4 * (4 * i + j) + 4 ≤ region.length.toNat ∧
        region.base + BitVec.ofNat 32 (16 * i) + BitVec.ofNat 32 (4 * j) =
          region.base + BitVec.ofNat 32 (4 * (4 * i + j)) := by
    refine ⟨by omega, ?_⟩
    rw [BitVec.add_assoc, ← BitVec.ofNat_add]
    congr 2
    omega
  simp only [lineAddresses, List.mem_cons, List.not_mem_nil, or_false] at haddress
  rcases haddress with rfl | rfl | rfl | rfl
  · exact ⟨4 * i + 0, hword 0 (by omega)⟩
  · exact ⟨4 * i + 1, hword 1 (by omega)⟩
  · exact ⟨4 * i + 2, hword 2 (by omega)⟩
  · exact ⟨4 * i + 3, hword 3 (by omega)⟩

theorem safeAddress_table {address : BitVec 32} (h : address ∈ tableAddresses) :
    SafeAddress address := by
  obtain ⟨region, hregion, haddress⟩ := List.mem_flatMap.mp h
  obtain ⟨halign, hbase, hend, hblocks⟩ := safeAddress_regions region hregion
  obtain ⟨k, hk, rfl⟩ := mem_addresses haddress
  have hsize : mdssBase.toNat + mdssSize.toNat < 2 ^ 32 := by decide
  have hvalue : (region.base + BitVec.ofNat 32 (4 * k)).toNat = region.base.toNat + 4 * k := by
    rw [BitVec.toNat_add, BitVec.toNat_ofNat]
    omega
  have hmod : region.base.toNat % 16 = 0 := congrArg BitVec.toNat halign
  refine ⟨?_, ?_, ?_⟩
  · apply BitVec.eq_of_toNat_eq
    rw [BitVec.toNat_umod, hvalue]
    change (region.base.toNat + 4 * k) % 4 = 0
    omega
  · rw [hvalue]
    omega
  · intro block hblock
    rw [hvalue]
    rcases hblocks block hblock with hbefore | hbehind
    · exact .inl (by omega)
    · exact .inr (by omega)

theorem safeAddress_version : SafeAddress mdssHwVersion :=
  ⟨by decide, by decide, by simp [resettingBlocks, mdssHwVersion, mdssBase]⟩

theorem GuardedPass.safe {pass : List RegisterRead} (h : GuardedPass pass) :
    ∀ read ∈ pass, SafeAddress read.1 := by
  intro read hread
  cases h with
  | live hlive hrest =>
    rcases List.mem_cons.mp hread with rfl | hmem
    · exact safeAddress_version
    · exact safeAddress_table (hrest ▸ List.mem_map_of_mem hmem)
  | dark hdark =>
    rw [List.mem_singleton.mp hread]
    exact safeAddress_version

/-- What a pass leaves of the state, whatever the block reports. -/
structure Passed (s s' : SnapshotState δ) (pass : List RegisterRead) : Prop where
  guarded : GuardedPass pass
  reads_eq : s'.reads = s.reads ++ pass
  log_prefix : s.log <+: s'.log
  memorySpace_eq : s'.memorySpace = s.memorySpace
  armed_eq : s'.armed = s.armed

theorem passed_dumpAllRegions (tag : String) (s : SnapshotState δ) :
    ∃ pass, Passed s (dumpAllRegions print mmioRead32 tag s) pass := by
  obtain ⟨lines, hpass⟩ := @pass_dumpAllRegions _ print mmioRead32 tag s
  by_cases hlive : MdssLive (mmioRead32 mdssHwVersion s.device).1
  · obtain ⟨hlines, hext⟩ := hpass.live hlive
    exact ⟨_, .live hlive (readsOf_table hlines), hext.reads_eq, ⟨_, hext.log_eq.symm⟩,
      hext.memorySpace_eq, hext.armed_eq⟩
  · have hext := hpass.dark hlive
    exact ⟨_, .dark hlive, hext.reads_eq, ⟨_, hext.log_eq.symm⟩, hext.memorySpace_eq,
      hext.armed_eq⟩

/-- Behind the entry point there is one more pass, if the handler is registered and the event is
signalled. -/
theorem bootRun_passes (events : List (BootEvent δ)) (s : SnapshotState δ) :
    ∃ passes : List (List RegisterRead), (∀ pass ∈ passes, GuardedPass pass) ∧
      (bootRun print mmioRead32 s events).reads = s.reads ++ passes.flatten ∧
      (bootRun print mmioRead32 s events).memorySpace = s.memorySpace ∧
      passes.length = if s.armed && events.any BootEvent.isReadyToBoot then 1 else 0 := by
  induction events generalizing s with
  | nil => exact ⟨[], by simp, by simp [bootRun], rfl, by simp⟩
  | cons event events ih =>
    obtain ⟨passes, hguarded, hreads, hspace, hcount⟩ := ih (bootStep print mmioRead32 s event)
    have hrun : bootRun print mmioRead32 s (event :: events) =
        bootRun print mmioRead32 (bootStep print mmioRead32 s event) events := rfl
    rw [hrun]
    cases event with
    | readyToBoot =>
      have hstep : bootStep print mmioRead32 s .readyToBoot =
          if s.armed then onReadyToBoot print mmioRead32 s else s := rfl
      rw [hstep] at hreads hspace hcount ⊢
      by_cases harmed : s.armed
      · rw [if_pos harmed] at hreads hspace hcount ⊢
        obtain ⟨pass, hpass⟩ := @passed_dumpAllRegions _ print mmioRead32 dpuTagLate
          { s with armed := false }
        have hdisarmed : (onReadyToBoot print mmioRead32 s).armed = false := hpass.armed_eq
        rw [hdisarmed] at hcount
        have hnone : passes = [] := List.eq_nil_of_length_eq_zero hcount
        refine ⟨[pass], ?_, ?_, hspace.trans hpass.memorySpace_eq, ?_⟩
        · intro p hp
          rw [List.mem_singleton.mp hp]
          exact hpass.guarded
        · rw [hreads, hnone, onReadyToBoot, hpass.reads_eq]
          simp
        · simp [harmed, BootEvent.isReadyToBoot]
      · rw [if_neg harmed] at hreads hspace hcount ⊢
        refine ⟨passes, hguarded, hreads, hspace, ?_⟩
        rw [hcount]
        simp [harmed]
    | print text => exact ⟨passes, hguarded, hreads, hspace, hcount⟩
    | device change => exact ⟨passes, hguarded, hreads, hspace, hcount⟩

theorem mapMdssWindow_effect (s : SnapshotState δ) :
    (mapMdssWindow services print s).2.device = s.device ∧
      (mapMdssWindow services print s).2.reads = s.reads ∧
      (mapMdssWindow services print s).2.armed = s.armed ∧
      ((mapMdssWindow services print s).1 = .ok () →
        MdssMapped s.memorySpace (mapMdssWindow services print s).2.memorySpace) := by
  rw [mapMdssWindow]
  split_ifs with hmapped
  · exact ⟨rfl, rfl, rfl, fun _ => .inl ⟨hmapped, rfl⟩⟩
  · cases hadd : services.addMemorySpace .memoryMappedIo (mdssBase.setWidth 64)
      (mdssSize.setWidth 64) (efiMemoryUC ||| efiMemoryRuntime) s.memorySpace with
    | error e => exact ⟨rfl, rfl, rfl, fun h => by cases h⟩
    | ok added =>
      dsimp only
      cases hset : services.setMemorySpaceAttributes (mdssBase.setWidth 64)
        (mdssSize.setWidth 64) efiMemoryUC added with
      | error e => exact ⟨rfl, rfl, rfl, fun h => by cases h⟩
      | ok final =>
        refine ⟨rfl, rfl, rfl, fun _ => .inr fun x hlow hhigh => ?_⟩
        obtain ⟨-, -, hadded⟩ := services.addMemorySpace_ok hadd
        have hinside : (mdssBase.setWidth 64).toNat ≤ x ∧
            x < (mdssBase.setWidth 64).toNat + (mdssSize.setWidth 64).toNat := ⟨hlow, hhigh⟩
        change final x = _
        rw [services.setMemorySpaceAttributes_ok hset, onRange_inside hinside, hadded,
          onRange_inside hinside]
        rfl

/-- Without the window the entry point leaves the registers alone and registers no handler. -/
theorem dpuSnapshotEntry_unmapped {createEvent : Except EfiError Unit} {s : SnapshotState δ}
    (hmap : (mapMdssWindow services print s).1 ≠ .ok ()) :
    (dpuSnapshotEntry services print mmioRead32 createEvent s).reads = s.reads ∧
      (dpuSnapshotEntry services print mmioRead32 createEvent s).armed = s.armed := by
  obtain ⟨-, hreads, harmed, -⟩ := @mapMdssWindow_effect _ services print s
  rcases hpair : mapMdssWindow services print s with ⟨result, mapped⟩
  rw [hpair] at hmap hreads harmed
  rw [dpuSnapshotEntry, hpair]
  cases result with
  | error e => exact ⟨hreads, harmed⟩
  | ok u => exact absurd rfl hmap

/-- With the window the entry point makes the early pass, and the handler is registered if the
event could be created. -/
theorem dpuSnapshotEntry_mapped {createEvent : Except EfiError Unit} {s : SnapshotState δ}
    (hmap : (mapMdssWindow services print s).1 = .ok ()) (hidle : s.armed = false) :
    ∃ early, GuardedPass early ∧
      (dpuSnapshotEntry services print mmioRead32 createEvent s).reads = s.reads ++ early ∧
      (dpuSnapshotEntry services print mmioRead32 createEvent s).armed = createEvent.toBool ∧
      MdssMapped s.memorySpace
        (dpuSnapshotEntry services print mmioRead32 createEvent s).memorySpace := by
  obtain ⟨-, hreads, harmed, hmapped⟩ := @mapMdssWindow_effect _ services print s
  have hspace := hmapped hmap
  rcases hpair : mapMdssWindow services print s with ⟨result, mapped⟩
  rw [hpair] at hmap hreads harmed hspace
  obtain rfl : result = .ok () := hmap
  obtain ⟨early, hearly⟩ := @passed_dumpAllRegions _ print mmioRead32 dpuTagEarly mapped
  have hearlyReads : (dumpAllRegions print mmioRead32 dpuTagEarly mapped).reads =
      s.reads ++ early := by
    rw [hearly.reads_eq]
    exact congrArg (· ++ early) hreads
  rw [← hearly.memorySpace_eq] at hspace
  rw [dpuSnapshotEntry, hpair]
  cases createEvent with
  | error e =>
    exact ⟨early, hearly.guarded, hearlyReads, hearly.armed_eq.trans (harmed.trans hidle), hspace⟩
  | ok u => exact ⟨early, hearly.guarded, hearlyReads, rfl, hspace⟩

/-- Nothing is read in a boot without the window. -/
theorem bootRun_unmapped {createEvent : Except EfiError Unit} {s : SnapshotState δ}
    (hmap : (mapMdssWindow services print s).1 ≠ .ok ()) (hidle : s.armed = false)
    (events : List (BootEvent δ)) :
    (bootRun print mmioRead32 (dpuSnapshotEntry services print mmioRead32 createEvent s)
      events).reads = s.reads := by
  obtain ⟨hreads, harmed⟩ :=
    @dpuSnapshotEntry_unmapped _ services print mmioRead32 createEvent s hmap
  obtain ⟨passes, -, hrun, -, hcount⟩ := @bootRun_passes _ print mmioRead32 events
    (dpuSnapshotEntry services print mmioRead32 createEvent s)
  rw [harmed, hidle] at hcount
  rw [hrun, List.eq_nil_of_length_eq_zero hcount, hreads, List.flatten_nil, List.append_nil]

/-- In a boot with the window the early pass is followed by at most one more. -/
theorem bootRun_mapped {createEvent : Except EfiError Unit} {s : SnapshotState δ}
    (hmap : (mapMdssWindow services print s).1 = .ok ()) (hidle : s.armed = false)
    (events : List (BootEvent δ)) :
    let final := bootRun print mmioRead32
      (dpuSnapshotEntry services print mmioRead32 createEvent s) events
    MdssMapped s.memorySpace final.memorySpace ∧
      ∃ passes : List (List RegisterRead), final.reads = s.reads ++ passes.flatten ∧
        (∀ pass ∈ passes, GuardedPass pass) ∧
        passes.length =
          if createEvent.toBool && events.any BootEvent.isReadyToBoot then 2 else 1 := by
  intro final
  obtain ⟨early, hearly, hreads, harmed, hspace⟩ :=
    @dpuSnapshotEntry_mapped _ services print mmioRead32 createEvent s hmap hidle
  obtain ⟨passes, hguarded, hrun, hrunSpace, hcount⟩ := @bootRun_passes _ print mmioRead32 events
    (dpuSnapshotEntry services print mmioRead32 createEvent s)
  refine ⟨?_, early :: passes, ?_, ?_, ?_⟩
  · change MdssMapped _ (bootRun print mmioRead32 _ events).memorySpace
    rw [hrunSpace]
    exact hspace
  · change (bootRun print mmioRead32 _ events).reads = _
    rw [hrun, hreads, List.flatten_cons, List.append_assoc]
  · intro pass hpass
    rcases List.mem_cons.mp hpass with rfl | hpass
    · exact hearly
    · exact hguarded pass hpass
  · rw [List.length_cons, hcount, harmed]
    split_ifs <;> rfl

/-- In a boot in which the window could not be mapped no register is read. Otherwise the registers
are read in one or two guarded passes, and none of them resets the phone. -/
theorem bootRun_guarded (services : MemoryServices) (print : PrintLib)
    (mmioRead32 : BitVec 32 → δ → BitVec 32 × δ) (createEvent : Except EfiError Unit) (device : δ)
    (memorySpace : MemorySpace) (events : List (BootEvent δ)) :
    let loaded := SnapshotState.loaded device memorySpace
    let final := bootRun print mmioRead32
      (dpuSnapshotEntry services print mmioRead32 createEvent loaded) events
    (∀ read ∈ final.reads, SafeAddress read.1) ∧
    ((mapMdssWindow services print loaded).1 ≠ .ok () → final.reads = []) ∧
    ((mapMdssWindow services print loaded).1 = .ok () →
      MdssMapped memorySpace final.memorySpace ∧
      ∃ passes : List (List RegisterRead), final.reads = passes.flatten ∧
        (∀ pass ∈ passes, GuardedPass pass) ∧
        passes.length =
          if createEvent.toBool && events.any BootEvent.isReadyToBoot then 2 else 1) := by
  intro loaded final
  have hunmapped (hmap : (mapMdssWindow services print loaded).1 ≠ .ok ()) : final.reads = [] :=
    bootRun_unmapped hmap rfl events
  have hmapped (hmap : (mapMdssWindow services print loaded).1 = .ok ()) :=
    @bootRun_mapped _ services print mmioRead32 createEvent loaded hmap rfl events
  refine ⟨?_, hunmapped, hmapped⟩
  intro read hread
  by_cases hmap : (mapMdssWindow services print loaded).1 = .ok ()
  · obtain ⟨-, passes, hflat, hguarded, -⟩ := hmapped hmap
    change read ∈ (bootRun print mmioRead32 _ events).reads at hread
    rw [hflat] at hread
    obtain ⟨pass, hpass, hmem⟩ := List.mem_flatten.mp hread
    exact (hguarded pass hpass).safe read hmem
  · rw [hunmapped hmap] at hread
    cases hread

end ProjectMu.DpuSnapshot
