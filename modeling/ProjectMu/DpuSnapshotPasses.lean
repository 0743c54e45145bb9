import ProjectMu.DpuSnapshot

/-!
# What the passes of the snapshot read and print

A dump is described by its lines, in order, and by the layout of its text, in which the address
and the words of a line have their places. Dumps one behind the other are one dump, so a pass has
the lines and the layout of the table, and a boot has at most two passes.
-/

namespace ProjectMu.DpuSnapshot

open ByteCodec ByteRange FixedText MapMemoryRegion

section Layout

variable (print : PrintLib)

def lineLayout (tag : String) : Layout Byte :=
  [.literal (asciiName tag ++ asciiName " "), .number, .literal (asciiName ": "), .number,
    .literal (asciiName " "), .number, .literal (asciiName " "), .number,
    .literal (asciiName " "), .number, .literal print.newLine]

def regionLayout (tag : String) (region : DpuRegion) : Layout Byte :=
  .literal (headText print tag region) :: region.lines.flatMap fun _ => lineLayout print tag

def beginLayout (tag : String) : Layout Byte :=
  [.literal (asciiName tag ++ asciiName " BEGIN v1 HW_VERSION=0x"), .number,
    .literal (asciiName " regions=" ++ print.decimal mDpuRegions.length ++ print.newLine)]

def endLayout (tag : String) : Layout Byte :=
  [.literal (asciiName tag ++ asciiName " END sum=0x"), .number, .literal print.newLine]

def passLayout (tag : String) : Layout Byte :=
  beginLayout print tag ++ mDpuRegions.flatMap (regionLayout print tag) ++ endLayout print tag

end Layout

def lineAddresses (address : BitVec 32) : List (BitVec 32) :=
  [address + 0x0, address + 0x4, address + 0x8, address + 0xC]

def DpuRegion.addresses (region : DpuRegion) : List (BitVec 32) :=
  region.lines.flatMap lineAddresses

def tableAddresses : List (BitVec 32) := mDpuRegions.flatMap DpuRegion.addresses

def tableLines : List (BitVec 32) := mDpuRegions.flatMap DpuRegion.lines

variable {δ : Type*} {services : MemoryServices} {print : PrintLib}
  {mmioRead32 : BitVec 32 → δ → BitVec 32 × δ} {tag : String}

/-- Nothing but the device, the reads and the text changed. -/
structure Extends (s s' : SnapshotState δ) (reads : List RegisterRead) (text : List Byte) :
    Prop where
  reads_eq : s'.reads = s.reads ++ reads
  log_eq : s'.log = s.log ++ text
  memorySpace_eq : s'.memorySpace = s.memorySpace
  armed_eq : s'.armed = s.armed

theorem Extends.trans {s s' s'' : SnapshotState δ} {reads reads' : List RegisterRead}
    {text text' : List Byte} (h : Extends s s' reads text) (h' : Extends s' s'' reads' text') :
    Extends s s'' (reads ++ reads') (text ++ text') where
  reads_eq := by rw [h'.reads_eq, h.reads_eq, List.append_assoc]
  log_eq := by rw [h'.log_eq, h.log_eq, List.append_assoc]
  memorySpace_eq := h'.memorySpace_eq.trans h.memorySpace_eq
  armed_eq := h'.armed_eq.trans h.armed_eq

theorem extends_debug (s : SnapshotState δ) (text : List Byte) :
    Extends s (s.debug text) [] text :=
  ⟨(List.append_nil _).symm, rfl, rfl, rfl⟩

theorem extends_readRegister (address : BitVec 32) (s : SnapshotState δ) :
    Extends s (readRegister mmioRead32 address s).2
      [(address, (readRegister mmioRead32 address s).1)] [] :=
  ⟨rfl, (List.append_nil _).symm, rfl, rfl⟩

/-- A line as it is printed: where it starts and the words read from there on. -/
structure DumpedLine where
  address : BitVec 32
  word0 : BitVec 32
  word1 : BitVec 32
  word2 : BitVec 32
  word3 : BitVec 32

def DumpedLine.reads (line : DumpedLine) : List RegisterRead :=
  [(line.address + 0x0, line.word0), (line.address + 0x4, line.word1),
    (line.address + 0x8, line.word2), (line.address + 0xC, line.word3)]

/-- The numbers that the layout of a line has places for. -/
def DumpedLine.numbers (line : DumpedLine) : List ℕ :=
  [line.address.toNat, line.word0.toNat, line.word1.toNat, line.word2.toNat, line.word3.toNat]

def readsOf (lines : List DumpedLine) : List RegisterRead := lines.flatMap DumpedLine.reads

def numbersOf (lines : List DumpedLine) : List ℕ := lines.flatMap DumpedLine.numbers

theorem readsOf_append (a c : List DumpedLine) : readsOf (a ++ c) = readsOf a ++ readsOf c :=
  List.flatMap_append

theorem numbersOf_append (a c : List DumpedLine) :
    numbersOf (a ++ c) = numbersOf a ++ numbersOf c :=
  List.flatMap_append

theorem readsOf_addresses (lines : List DumpedLine) :
    (readsOf lines).map Prod.fst = (lines.map DumpedLine.address).flatMap lineAddresses := by
  rw [readsOf, List.map_flatMap, List.flatMap_map]
  rfl

theorem length_numbersOf (lines : List DumpedLine) :
    (numbersOf lines).length = 5 * lines.length := by
  induction lines with
  | nil => rfl
  | cons line lines ih =>
    rw [numbersOf, List.flatMap_cons, List.length_append, List.length_cons]
    change 5 + (numbersOf lines).length = 5 * (lines.length + 1)
    rw [ih]
    ring

def sumOf (reads : List RegisterRead) : BitVec 32 := (reads.map Prod.snd).sum

theorem sumOf_append (a c : List RegisterRead) : sumOf (a ++ c) = sumOf a + sumOf c := by
  rw [sumOf, List.map_append, List.sum_append]
  rfl

/-- From `acc` to `acc'` the lines that start at the addresses are read, and the text has the
layout. -/
structure Dumps (print : PrintLib) (layout : Layout Byte) (addresses : List (BitVec 32))
    (acc acc' : BitVec 32 × SnapshotState δ) (lines : List DumpedLine) : Prop where
  addresses_eq : lines.map DumpedLine.address = addresses
  places_eq : Layout.places layout = 5 * addresses.length
  sum_eq : acc'.1 = acc.1 + sumOf (readsOf lines)
  effect : Extends acc.2 acc'.2 (readsOf lines)
    (Layout.fill print.numerals 8 layout (numbersOf lines))

theorem Dumps.length_numbers {layout : Layout Byte} {addresses : List (BitVec 32)}
    {acc acc' : BitVec 32 × SnapshotState δ} {lines : List DumpedLine}
    (h : Dumps print layout addresses acc acc' lines) :
    (numbersOf lines).length = Layout.places layout := by
  rw [h.places_eq, ← h.addresses_eq, length_numbersOf, List.length_map]

theorem Dumps.trans {layout layout' : Layout Byte} {addresses addresses' : List (BitVec 32)}
    {acc acc' acc'' : BitVec 32 × SnapshotState δ} {lines lines' : List DumpedLine}
    (h : Dumps print layout addresses acc acc' lines)
    (h' : Dumps print layout' addresses' acc' acc'' lines') :
    Dumps print (layout ++ layout') (addresses ++ addresses') acc acc'' (lines ++ lines') where
  addresses_eq := by rw [List.map_append, h.addresses_eq, h'.addresses_eq]
  places_eq := by rw [places_append, h.places_eq, h'.places_eq, List.length_append, Nat.mul_add]
  sum_eq := by rw [h'.sum_eq, h.sum_eq, readsOf_append, sumOf_append, add_assoc]
  effect := by
    rw [readsOf_append, numbersOf_append, fill_append layout layout' h.length_numbers]
    exact h.effect.trans h'.effect

/-- A loop whose steps are dumps is the dump of all of them. -/
theorem dumps_foldl {ι : Type*} {layout : ι → Layout Byte} {addresses : ι → List (BitVec 32)}
    {step : BitVec 32 × SnapshotState δ → ι → BitVec 32 × SnapshotState δ} (items : List ι)
    (hstep : ∀ i ∈ items, ∀ acc, ∃ lines,
      Dumps print (layout i) (addresses i) acc (step acc i) lines)
    (acc : BitVec 32 × SnapshotState δ) :
    ∃ lines, Dumps print (items.flatMap layout) (items.flatMap addresses) acc
      (items.foldl step acc) lines := by
  induction items generalizing acc with
  | nil =>
    exact ⟨[], rfl, rfl, (BitVec.add_zero _).symm, (List.append_nil _).symm,
      (List.append_nil _).symm, rfl, rfl⟩
  | cons i items ih =>
    obtain ⟨lines, hlines⟩ := hstep i List.mem_cons_self acc
    obtain ⟨rest, hrest⟩ := ih (fun j hj => hstep j (List.mem_cons_of_mem i hj)) (step acc i)
    exact ⟨lines ++ rest, hlines.trans hrest⟩

theorem dumps_dumpLine (address : BitVec 32) (acc : BitVec 32 × SnapshotState δ) :
    ∃ lines, Dumps print (lineLayout print tag) [address] acc
      (dumpLine print mmioRead32 tag address acc) lines := by
  set r0 := readRegister mmioRead32 (address + 0x0) acc.2 with hr0
  set r1 := readRegister mmioRead32 (address + 0x4) r0.2 with hr1
  set r2 := readRegister mmioRead32 (address + 0x8) r1.2 with hr2
  set r3 := readRegister mmioRead32 (address + 0xC) r2.2 with hr3
  have htext : Layout.fill print.numerals 8 (lineLayout print tag)
      (numbersOf [⟨address, r0.1, r1.1, r2.1, r3.1⟩]) =
        lineText print tag address r0.1 r1.1 r2.1 r3.1 := by
    simp [lineLayout, lineText, Layout.fill, numbersOf, DumpedLine.numbers, PrintLib.hex8]
  refine ⟨[⟨address, r0.1, r1.1, r2.1, r3.1⟩], rfl, rfl, ?_, ?_⟩
  · change acc.1 + (r0.1 + r1.1 + r2.1 + r3.1) = acc.1 + (r0.1 + (r1.1 + (r2.1 + (r3.1 + 0))))
    grind
  · have hline : (dumpLine print mmioRead32 tag address acc).2 =
        r3.2.debug (lineText print tag address r0.1 r1.1 r2.1 r3.1) := rfl
    have hread0 := @extends_readRegister _ mmioRead32 (address + 0x0) acc.2
    have hread1 := @extends_readRegister _ mmioRead32 (address + 0x4) r0.2
    have hread2 := @extends_readRegister _ mmioRead32 (address + 0x8) r1.2
    have hread3 := @extends_readRegister _ mmioRead32 (address + 0xC) r2.2
    have hwords := (((hread0.trans hread1).trans hread2).trans hread3).trans
      (extends_debug r3.2 (lineText print tag address r0.1 r1.1 r2.1 r3.1))
    simp only [List.nil_append, List.append_nil, List.cons_append] at hwords
    rw [htext, hline]
    exact hwords

theorem dumps_dumpRegion {region : DpuRegion} (hlength : region.length ≠ 0)
    (hlines : region.length % 16 = 0) (s : SnapshotState δ) :
    ∃ lines, Dumps print (regionLayout print tag region) region.lines (0, s)
      (dumpRegion print mmioRead32 tag region s) lines := by
  have hskip : ¬(region.length = 0 ∨ region.length % 16 ≠ 0) := fun h =>
    h.elim hlength (fun h => h hlines)
  obtain ⟨lines, hdumps⟩ := dumps_foldl region.lines
    (fun address _ acc => @dumps_dumpLine _ print mmioRead32 tag address acc)
    (0, s.debug (headText print tag region))
  have hstarts : region.lines.flatMap (fun address => [address]) = region.lines :=
    List.flatMap_singleton' region.lines
  rw [hstarts] at hdumps
  rw [dumpRegion, if_neg hskip]
  exact ⟨lines, hdumps.addresses_eq, hdumps.places_eq, hdumps.sum_eq,
    (extends_debug s (headText print tag region)).trans hdumps.effect⟩

theorem dumps_dumpRegions {regions : List DpuRegion}
    (hregions : ∀ region ∈ regions, region.length ≠ 0 ∧ region.length % 16 = 0)
    (acc : BitVec 32 × SnapshotState δ) :
    ∃ lines, Dumps print (regions.flatMap (regionLayout print tag))
      (regions.flatMap DpuRegion.lines) acc
      (dumpRegions print mmioRead32 tag regions acc) lines := by
  apply dumps_foldl
  intro region hregion acc
  obtain ⟨lines, hlines⟩ :=
    dumps_dumpRegion (hregions region hregion).1 (hregions region hregion).2 acc.2
  refine ⟨lines, hlines.addresses_eq, hlines.places_eq, ?_, hlines.effect⟩
  change acc.1 + (dumpRegion print mmioRead32 tag region acc.2).1 = _
  rw [hlines.sum_eq]
  exact congrArg (acc.1 + ·) (BitVec.zero_add _)

theorem mDpuRegions_lengths :
    ∀ region ∈ mDpuRegions, region.length ≠ 0 ∧ region.length % 16 = 0 := by
  decide

/-- The text of a pass that found the block alive. -/
def passText (print : PrintLib) (tag : String) (version : BitVec 32) (lines : List DumpedLine) :
    List Byte :=
  Layout.fill print.numerals 8 (passLayout print tag)
    (version.toNat :: (numbersOf lines ++ [(sumOf (readsOf lines)).toNat]))

/-- A pass reads the version first, and the table only if that is the one of a live block. -/
structure Pass (print : PrintLib) (tag : String) (version : BitVec 32) (s s' : SnapshotState δ)
    (lines : List DumpedLine) : Prop where
  live : MdssLive version →
    lines.map DumpedLine.address = tableLines ∧
    Extends s s' ((mdssHwVersion, version) :: readsOf lines) (passText print tag version lines)
  dark : ¬MdssLive version →
    Extends s s' [(mdssHwVersion, version)] (abortText print tag version)

theorem readsOf_table {lines : List DumpedLine}
    (h : lines.map DumpedLine.address = tableLines) :
    (readsOf lines).map Prod.fst = tableAddresses := by
  rw [readsOf_addresses, h, tableLines, List.flatMap_assoc]
  rfl

theorem pass_dumpAllRegions (tag : String) (s : SnapshotState δ) :
    ∃ lines, Pass print tag (mmioRead32 mdssHwVersion s.device).1 s
      (dumpAllRegions print mmioRead32 tag s) lines := by
  set version := (mmioRead32 mdssHwVersion s.device).1 with hversion
  have hfirst := @extends_readRegister _ mmioRead32 mdssHwVersion s
  set s' := (readRegister mmioRead32 mdssHwVersion s).2 with hs'
  by_cases hlive : MdssLive version
  · obtain ⟨lines, hlines⟩ := @dumps_dumpRegions _ print mmioRead32 tag _ mDpuRegions_lengths
      (0, s'.debug (beginText print tag version))
    set done := dumpRegions print mmioRead32 tag mDpuRegions
      (0, s'.debug (beginText print tag version)) with hdone
    have hall : dumpAllRegions print mmioRead32 tag s =
        done.2.debug (endText print tag done.1) := by
      have hread : MdssLive (readRegister mmioRead32 mdssHwVersion s).1 := hlive
      rw [dumpAllRegions, if_pos hread]
      rfl
    have hsum : done.1 = sumOf (readsOf lines) := by
      rw [hlines.sum_eq]
      exact BitVec.zero_add _
    have hbegin : Layout.fill print.numerals 8 (beginLayout print tag) [version.toNat] =
        beginText print tag version := by
      simp [beginLayout, beginText, Layout.fill, PrintLib.hex8]
    have hend : Layout.fill print.numerals 8 (endLayout print tag) [(sumOf (readsOf lines)).toNat] =
        endText print tag (sumOf (readsOf lines)) := by
      simp [endLayout, endText, Layout.fill, PrintLib.hex8]
    have htext : passText print tag version lines = beginText print tag version ++
        (Layout.fill print.numerals 8 (mDpuRegions.flatMap (regionLayout print tag))
          (numbersOf lines) ++ endText print tag (sumOf (readsOf lines))) := by
      have hone : [version.toNat].length = Layout.places (beginLayout print tag) := rfl
      rw [passText, passLayout, List.append_assoc, ← List.singleton_append,
        fill_append (beginLayout print tag) _ hone, fill_append _ _ hlines.length_numbers, hbegin,
        hend]
    refine ⟨lines, fun _ => ⟨hlines.addresses_eq, ?_⟩, fun h => absurd hlive h⟩
    rw [hall, hsum, htext]
    have hlast := hlines.effect.trans
      (extends_debug done.2 (endText print tag (sumOf (readsOf lines))))
    rw [List.append_nil] at hlast
    exact (hfirst.trans ((extends_debug s' (beginText print tag version)).trans hlast))
  · refine ⟨[], fun h => absurd h hlive, fun _ => ?_⟩
    have hall : dumpAllRegions print mmioRead32 tag s = s'.debug (abortText print tag version) := by
      have hread : ¬MdssLive (readRegister mmioRead32 mdssHwVersion s).1 := hlive
      rw [dumpAllRegions, if_neg hread]
      rfl
    rw [hall]
    exact hfirst.trans (extends_debug s' (abortText print tag version))

end ProjectMu.DpuSnapshot
