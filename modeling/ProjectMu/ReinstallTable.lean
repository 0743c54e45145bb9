import Mathlib
import ProjectMu.AslUpdate
import ProjectMu.GptFormat

/-!
# Reinstalling an ACPI table

`reinstallTable` removes a table and then installs its new bytes, with the checksum that makes
them sum to zero. Between the two steps the table is installed no more, and nothing brings it
back.
-/

namespace ProjectMu

open ByteCodec ByteRange

/-- The answers of the ACPI table protocol to an uninstallation and to the installation that
follows, which gives the new handle. -/
structure AcpiTableProtocol where
  uninstallAcpiTable : Except EfiError Unit
  installAcpiTable : Except EfiError (BitVec 64)
  deriving DecidableEq

/-- The installed tables with their handles, and `*TableHandle`. -/
structure AcpiTables where
  installed : List (BitVec 64 × List Byte)
  tableHandle : BitVec 64
  deriving DecidableEq

def checksumOffset : ℕ := 9

def calculateSum8 (buffer : List Byte) : Byte := buffer.sum

def updateChecksum (table : List Byte) : List Byte :=
  let table := table.set checksumOffset 0
  table.set checksumOffset (0 - calculateSum8 (table.take (tableLength table)))

def uninstall (tables : AcpiTables) : AcpiTables :=
  ⟨tables.installed.filter (fun entry => entry.1 ≠ tables.tableHandle), 0⟩

/-- `mAcpiTableProtocol` and `Table` are `none` for NULL. -/
def reinstallTable (protocol : Option AcpiTableProtocol) (table : Option (List Byte))
    (tableHandleIsNull : Bool) (tables : AcpiTables) : Except EfiError Unit × AcpiTables :=
  match protocol, table with
  | none, _ => (.error .notReady, tables)
  | some _, none => (.error .invalidParameter, tables)
  | some protocol, some table =>
    if tableHandleIsNull then (.error .invalidParameter, tables)
    else
      let table := updateChecksum table
      match protocol.uninstallAcpiTable with
      | .error error => (.error error, tables)
      | .ok () =>
        let tables := uninstall tables
        match protocol.installAcpiTable with
        | .error error => (.error error, tables)
        | .ok handle =>
          (.ok (), ⟨(handle, table.take (tableLength table)) :: tables.installed, handle⟩)

variable {protocol : AcpiTableProtocol} {table : List Byte} {tables : AcpiTables}

/-! ## The checksum -/

theorem tableLength_set {b : Byte} :
    tableLength (table.set checksumOffset b) = tableLength table := by
  have hslice : slice (table.set checksumOffset b) 4 4 = slice table 4 4 := by
    ext1 i
    rw [getElem?_slice, getElem?_slice]
    split
    next hi => rw [List.getElem?_set_ne (by rw [checksumOffset]; omega)]
    next => rfl
  rw [tableLength, tableLength, hslice]

theorem tableLength_updateChecksum : tableLength (updateChecksum table) = tableLength table := by
  rw [updateChecksum, tableLength_set, tableLength_set]

/-- The table differs in its checksum at most. -/
theorem getElem?_take_updateChecksum {i : ℕ} (h : i ≠ checksumOffset) :
    ((updateChecksum table).take (tableLength table))[i]? =
      (table.take (tableLength table))[i]? := by
  rw [List.getElem?_take, List.getElem?_take, updateChecksum, List.getElem?_set_ne h.symm,
    List.getElem?_set_ne h.symm]

/-- Bytes that are zero at a place and not behind it sum to zero with the negated sum there. -/
theorem sum_set_neg {bytes : List Byte} {i : ℕ} (hi : i < bytes.length) :
    ((bytes.set i 0).set i (0 - (bytes.set i 0).sum)).sum = 0 := by
  have hi' : i < (bytes.set i 0).length := by
    rw [List.length_set]
    exact hi
  have hzero : (bytes.set i 0).get ⟨i, hi'⟩ = 0 := List.getElem_set_self _
  rw [List.get_eq_getElem] at hzero
  rw [List.sum_set', dif_pos hi', hzero]
  ring

theorem sum_take_updateChecksum (h : checksumOffset < tableLength table)
    (hsize : tableLength table ≤ table.length) :
    ((updateChecksum table).take (tableLength table)).sum = 0 := by
  rw [updateChecksum, tableLength_set, calculateSum8, List.take_set, List.take_set]
  exact sum_set_neg (by rw [List.length_take]; omega)

/-- The checksum of a table that ends before it lies behind the table. -/
theorem take_updateChecksum_of_le (h : tableLength table ≤ checksumOffset) :
    (updateChecksum table).take (tableLength table) = table.take (tableLength table) := by
  rw [updateChecksum, List.take_set_of_le h, List.take_set_of_le h]

theorem sum_take_updateChecksum_iff (hsize : tableLength table ≤ table.length) :
    ((updateChecksum table).take (tableLength table)).sum = 0 ↔
      checksumOffset < tableLength table ∨ (table.take (tableLength table)).sum = 0 := by
  rcases lt_or_ge checksumOffset (tableLength table) with h | h
  · exact ⟨fun _ => .inl h, fun _ => sum_take_updateChecksum h hsize⟩
  · rw [take_updateChecksum_of_le h, or_iff_right (not_lt.2 h)]

/-! ## The removal -/

theorem uninstall_eq_self_iff :
    uninstall tables = tables ↔
      tables.tableHandle = 0 ∧ ∀ entry ∈ tables.installed, entry.1 ≠ 0 := by
  obtain ⟨installed, tableHandle⟩ := tables
  rw [uninstall, AcpiTables.mk.injEq, List.filter_eq_self]
  constructor
  · rintro ⟨hkept, rfl⟩
    exact ⟨rfl, fun entry hentry => of_decide_eq_true (hkept entry hentry)⟩
  · rintro ⟨rfl, hkept⟩
    exact ⟨fun entry hentry => decide_eq_true (hkept entry hentry), rfl⟩

/-- What a call does that reaches the protocol. -/
theorem reinstallTable_some :
    reinstallTable (some protocol) (some table) false tables =
      match protocol.uninstallAcpiTable, protocol.installAcpiTable with
      | .error error, _ => (.error error, tables)
      | .ok (), .error error => (.error error, uninstall tables)
      | .ok (), .ok handle =>
        (.ok (), ⟨(handle, (updateChecksum table).take (tableLength table)) ::
          (uninstall tables).installed, handle⟩) := by
  rw [reinstallTable, if_neg Bool.false_ne_true, ← @tableLength_updateChecksum table]
  rcases protocol with ⟨_ | _, _ | _⟩ <;> rfl

/-! ## Both together -/

/-- A successful call replaces a table by its new bytes, and a failed one changes nothing. -/
structure ReinstallsAtomically (protocol : Option AcpiTableProtocol) (table : Option (List Byte))
    (tableHandleIsNull : Bool) (tables : AcpiTables) : Prop where
  success : ∀ tables', reinstallTable protocol table tableHandleIsNull tables = (.ok (), tables') →
    ∃ given bytes, table = some given ∧ bytes.length = (given.take (tableLength given)).length ∧
      (∀ i ≠ checksumOffset, bytes[i]? = (given.take (tableLength given))[i]?) ∧
      bytes.sum = 0 ∧
      tables'.installed = (tables'.tableHandle, bytes) ::
        tables.installed.filter (fun entry => entry.1 ≠ tables.tableHandle)
  failure : ∀ error tables', reinstallTable protocol table tableHandleIsNull tables =
    (.error error, tables') → tables' = tables

/-- After a removal, an installation that fails finds that nothing was removed, and one that
succeeds gets a table with its checksum inside or one that sums to zero without it. -/
structure SafeToReinstall (protocol : AcpiTableProtocol) (table : List Byte)
    (tables : AcpiTables) : Prop where
  nothingRemoved : ∀ error, protocol.installAcpiTable = .error error →
    tables.tableHandle = 0 ∧ ∀ entry ∈ tables.installed, entry.1 ≠ 0
  checksummed : ∀ handle, protocol.installAcpiTable = .ok handle →
    checksumOffset < tableLength table ∨ (table.take (tableLength table)).sum = 0

theorem reinstallsAtomically_of_error {protocol : Option AcpiTableProtocol}
    {table : Option (List Byte)} {tableHandleIsNull : Bool} {error : EfiError}
    (h : reinstallTable protocol table tableHandleIsNull tables = (.error error, tables)) :
    ReinstallsAtomically protocol table tableHandleIsNull tables := by
  constructor
  · intro tables' hok
    rw [h] at hok
    cases hok
  · intro error' tables' herror
    rw [h] at herror
    cases herror
    rfl

/-- With a removal that succeeds, the answer of the installation decides. -/
theorem reinstallsAtomically_some_iff (hun : protocol.uninstallAcpiTable = .ok ())
    (hsize : tableLength table ≤ table.length) :
    ReinstallsAtomically (some protocol) (some table) false tables ↔
      SafeToReinstall protocol table tables := by
  have hrun := @reinstallTable_some protocol table tables
  rw [hun] at hrun
  cases hin : protocol.installAcpiTable with
  | error error =>
    rw [hin] at hrun
    constructor
    · intro h
      exact ⟨fun _ _ => uninstall_eq_self_iff.1 (h.failure _ _ hrun),
        fun _ hok => absurd (hin.symm.trans hok) (by rintro ⟨⟩)⟩
    · intro h
      have hkept : uninstall tables = tables := uninstall_eq_self_iff.2 (h.nothingRemoved error hin)
      have hrun := hrun.trans (congrArg (Prod.mk (Except.error error)) hkept)
      exact reinstallsAtomically_of_error hrun
  | ok handle =>
    rw [hin] at hrun
    constructor
    · intro h
      obtain ⟨given, bytes, -, -, -, hsum, hinstalled⟩ := h.success _ hrun
      have hbytes := (List.cons.inj hinstalled).1
      refine ⟨fun _ herror => absurd (hin.symm.trans herror) (by rintro ⟨⟩), fun _ _ => ?_⟩
      rw [← sum_take_updateChecksum_iff hsize, (Prod.mk.inj hbytes).2, hsum]
    · intro h
      constructor
      · intro tables' hok
        rw [hrun] at hok
        cases hok
        refine ⟨table, _, rfl, ?_, fun i hi => getElem?_take_updateChecksum hi,
          (sum_take_updateChecksum_iff hsize).2 (h.checksummed handle hin), rfl⟩
        rw [List.length_take, List.length_take, updateChecksum, List.length_set, List.length_set]
      · intro error tables' herror
        rw [hrun] at herror
        cases herror

/-- The call is atomic exactly when a removal is followed by an installation that succeeds, or
removed nothing, and the table reaches its checksum or needs none. -/
theorem reinstallsAtomically_iff (protocol : Option AcpiTableProtocol)
    (table : Option (List Byte)) (tableHandleIsNull : Bool) (tables : AcpiTables)
    (hsize : ∀ bytes, table = some bytes → tableLength bytes ≤ bytes.length) :
    ReinstallsAtomically protocol table tableHandleIsNull tables ↔
      ∀ acpi bytes, protocol = some acpi → table = some bytes → tableHandleIsNull = false →
        acpi.uninstallAcpiTable = .ok () → SafeToReinstall acpi bytes tables := by
  cases protocol with
  | none =>
    exact iff_of_true (reinstallsAtomically_of_error rfl) (by rintro _ _ ⟨⟩)
  | some acpi =>
    cases table with
    | none => exact iff_of_true (reinstallsAtomically_of_error rfl) (by rintro _ _ _ ⟨⟩)
    | some bytes =>
      cases tableHandleIsNull with
      | true => exact iff_of_true (reinstallsAtomically_of_error rfl) (by rintro _ _ _ _ ⟨⟩)
      | false =>
        cases hun : acpi.uninstallAcpiTable with
        | error error =>
          have hrun := @reinstallTable_some acpi bytes tables
          rw [hun] at hrun
          refine iff_of_true (reinstallsAtomically_of_error hrun) ?_
          rintro _ _ ⟨⟩ _ _ hok
          exact absurd (hun.symm.trans hok) (by rintro ⟨⟩)
        | ok =>
          rw [reinstallsAtomically_some_iff hun (hsize bytes rfl)]
          constructor
          · rintro h _ _ ⟨⟩ ⟨⟩ _ _
            exact h
          · intro h
            exact h acpi bytes rfl rfl rfl hun

/-- A definition block that is a header alone. -/
def bareDsdt : List Byte :=
  [68, 83, 68, 84, 36, 0, 0, 0, 2] ++ List.replicate 27 0

def bareTables : AcpiTables := ⟨[(7, bareDsdt)], 7⟩

theorem bareDsdt_reinstallsAtomically :
    ReinstallsAtomically (some ⟨.ok (), .ok 8⟩) (some bareDsdt) false bareTables := by
  refine (reinstallsAtomically_iff _ _ _ _ ?_).2 ?_
  · rintro bytes ⟨⟩
    decide
  · rintro acpi bytes ⟨⟩ ⟨⟩ _ _
    exact ⟨by rintro _ ⟨⟩, fun _ _ => .inl (by decide)⟩

/-- The table is gone when its new bytes are refused. -/
theorem refusedDsdt_not_reinstallsAtomically :
    ¬ReinstallsAtomically (some ⟨.ok (), .error .outOfResources⟩) (some bareDsdt) false
      bareTables := by
  intro h
  have hkept := h.failure .outOfResources ⟨[], 0⟩ (by decide)
  exact absurd hkept (by decide)

end ProjectMu
