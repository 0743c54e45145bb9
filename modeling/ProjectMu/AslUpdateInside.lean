import ProjectMu.AccessLog
import ProjectMu.AslUpdate

/-!
# When an update of a name stays inside its table

The search leaves five bytes behind each place that it looks at. What follows the opcode of the
data is measured and overwritten without a look at the end of the table.
-/

namespace ProjectMu

open AccessLog ByteCodec ByteRange

variable {table : List Byte} {update : AslUpdate} {nameSignature : BitVec 32} {current n : ℕ}

/-- Offsets of bytes that are read or overwritten. -/
inductive TableAccess
  | read (offset : ℕ)
  | write (offset : ℕ)
  deriving DecidableEq

def readBytes (table : List Byte) (offset n : ℕ) : Logged TableAccess (List Byte) :=
  ⟨slice table offset n, (List.range' offset n).map .read⟩

def readByte (table : List Byte) (offset : ℕ) : Logged TableAccess Byte :=
  access (.read offset) (table.getD offset 0)

/-- The characters of a string and its terminator are read. -/
def readAsciiStrSize (table : List Byte) (offset : ℕ) : Logged TableAccess ℕ :=
  ⟨asciiStrSize table offset, (List.range' offset (asciiStrSize table offset)).map .read⟩

def readIsNameAt (table : List Byte) (nameSignature : BitVec 32) (current : ℕ) :
    Logged TableAccess Bool := do
  let op ← readByte table current
  if op ≠ amlNameOp then pure false
  else
    let name ← readBytes table (current + 1) 4
    pure (BitVec.ofNat 32 (littleEndian name) == nameSignature)

/-- The loop over the places of the table. -/
def readFirstName (table : List Byte) (nameSignature : BitVec 32) :
    List ℕ → Logged TableAccess (Option ℕ)
  | [] => pure none
  | current :: places => do
    let found ← readIsNameAt table nameSignature current
    if found then pure (some current) else readFirstName table nameSignature places

def readAslNameDataSize (table : List Byte) (current : ℕ) : Logged TableAccess (Option ℕ) := do
  let dataOp ← readByte table (current + 5)
  if dataOp = amlStringPrefix then
    let size ← readAsciiStrSize table (current + 6)
    pure (some size)
  else pure ((AmlWidth.ofOpcode dataOp).map AmlWidth.bytes)

/-- The places that are compared with the name. -/
def namePlaces (table : List Byte) : List ℕ :=
  List.range' acpiHeaderSize (tableLength table - 5 - acpiHeaderSize)

/-- The update at the first match, from the size of the old data. -/
def overwriteAt (table buffer : List Byte) (current : ℕ) :
    Option ℕ → Logged TableAccess (AslStatus × List Byte)
  | none => pure (.unsupported, table)
  | some origDataSize =>
    if origDataSize < buffer.length then pure (.bufferTooSmall, table)
    else ⟨(.success, splice table (current + 6) buffer),
      (List.range' (current + 6) buffer.length).map .write⟩

def overwriteName (table : List Byte) (nameSignature : BitVec 32) (buffer : List Byte) :
    Logged TableAccess (AslStatus × List Byte) := do
  let found ← readFirstName table nameSignature (namePlaces table)
  match found with
  | none => pure (.notFound, table)
  | some current =>
    let size ← readAslNameDataSize table current
    overwriteAt table buffer current size

/-- `aslUpdateName` with its accesses to the table and to what is behind it. -/
def readAslUpdateName (table : List Byte) (update : AslUpdate) :
    Logged TableAccess (AslStatus × List Byte) :=
  match update.buffer with
  | none => pure (.invalidParameter, table)
  | some [] => pure (.invalidParameter, table)
  | some (b :: bs) => do
    let _ ← readBytes table 0 4
    if ¬IsDefinitionBlock table then pure (.unsupported, table)
    else
      let _ ← readBytes table 4 4
      overwriteName table update.nameSignature (b :: bs)

theorem value_readIsNameAt :
    (readIsNameAt table nameSignature current).value = isNameAt table nameSignature current := by
  rw [readIsNameAt, value_bind, readByte, value_access, isNameAt]
  by_cases h : table.getD current 0 = amlNameOp
  · rw [if_neg (not_not.mpr h), h, beq_self_eq_true, Bool.true_and]
    rfl
  · rw [if_pos h, beq_eq_false_iff_ne.mpr h, Bool.false_and]
    rfl

theorem value_readFirstName (places : List ℕ) :
    (readFirstName table nameSignature places).value =
      places.find? (isNameAt table nameSignature) := by
  induction places with
  | nil => rfl
  | cons current places ih =>
    rw [readFirstName, value_bind, value_readIsNameAt, List.find?_cons]
    cases isNameAt table nameSignature current with
    | true => rfl
    | false => exact ih

theorem value_readAslNameDataSize :
    (readAslNameDataSize table current).value = getAslNameDataSize table current := by
  rw [readAslNameDataSize, value_bind, readByte, value_access, getAslNameDataSize]
  split <;> rfl

def firstName (table : List Byte) (nameSignature : BitVec 32) : Option ℕ :=
  (namePlaces table).find? (isNameAt table nameSignature)

theorem overwriteName_of_none (buffer : List Byte) (h : firstName table nameSignature = none) :
    overwriteName table nameSignature buffer =
      ⟨(.notFound, table), (readFirstName table nameSignature (namePlaces table)).log ++ []⟩ := by
  have hvalue := (value_readFirstName (namePlaces table)).trans h
  rw [overwriteName, bind_of_value hvalue]
  rfl

theorem overwriteName_of_some (buffer : List Byte)
    (h : firstName table nameSignature = some current) :
    overwriteName table nameSignature buffer =
      ⟨(overwriteAt table buffer current (getAslNameDataSize table current)).value,
        (readFirstName table nameSignature (namePlaces table)).log ++
          ((readAslNameDataSize table current).log ++
            (overwriteAt table buffer current (getAslNameDataSize table current)).log)⟩ := by
  have hvalue := (value_readFirstName (namePlaces table)).trans h
  rw [overwriteName, bind_of_value hvalue]
  dsimp only
  rw [bind_of_value value_readAslNameDataSize]

/-- An update with nothing to write or of another kind of table. -/
def UpdateRejected (table : List Byte) (update : AslUpdate) : Prop :=
  update.buffer.getD [] = [] ∨ ¬IsDefinitionBlock table

theorem readAslUpdateName_of_rejected (h : UpdateRejected table update) :
    (∃ status ≠ AslStatus.success, (readAslUpdateName table update).value = (status, table)) ∧
      ∀ a ∈ (readAslUpdateName table update).log, ∃ offset < 4, a = .read offset := by
  obtain ⟨nameSignature, buffer⟩ := update
  match buffer with
  | none => exact ⟨⟨.invalidParameter, nofun, rfl⟩, fun a ha => absurd ha List.not_mem_nil⟩
  | some [] => exact ⟨⟨.invalidParameter, nofun, rfl⟩, fun a ha => absurd ha List.not_mem_nil⟩
  | some (b :: bs) =>
    have hblock : ¬IsDefinitionBlock table := h.resolve_left (List.cons_ne_nil b bs)
    rw [readAslUpdateName]
    dsimp only
    rw [bind_of_value rfl, if_pos hblock]
    refine ⟨⟨.unsupported, nofun, rfl⟩, fun a ha => ?_⟩
    rcases List.mem_append.mp ha with ha | ha
    · obtain ⟨offset, hoffset, rfl⟩ := List.mem_map.mp ha
      exact ⟨offset, (List.mem_range'_1.mp hoffset).2, rfl⟩
    · exact absurd ha List.not_mem_nil

theorem readAslUpdateName_of_not_rejected (h : ¬UpdateRejected table update) :
    let overwritten := overwriteName table update.nameSignature (update.buffer.getD [])
    readAslUpdateName table update = ⟨overwritten.value,
      (List.range' 0 4).map .read ++ ((List.range' 4 4).map .read ++ overwritten.log)⟩ := by
  obtain ⟨nameSignature, buffer⟩ := update
  rw [UpdateRejected, not_or, not_not] at h
  match buffer with
  | none => exact absurd rfl h.1
  | some [] => exact absurd rfl h.1
  | some (b :: bs) =>
    rw [readAslUpdateName]
    dsimp only
    rw [bind_of_value rfl, if_neg (not_not.mpr h.2), bind_of_value rfl]
    rfl

theorem value_readAslUpdateName :
    (readAslUpdateName table update).value = aslUpdateName table update := by
  obtain ⟨nameSignature, buffer⟩ := update
  match buffer with
  | none => rfl
  | some [] => rfl
  | some (b :: bs) =>
    rw [readAslUpdateName, aslUpdateName]
    dsimp only
    by_cases hblock : IsDefinitionBlock table
    · rw [bind_of_value rfl, if_neg (not_not.mpr hblock), if_neg (not_not.mpr hblock),
        bind_of_value rfl]
      dsimp only
      cases hfirst : firstName table nameSignature with
      | none =>
        rw [overwriteName_of_none _ hfirst]
        rw [firstName, namePlaces] at hfirst
        rw [hfirst]
      | some current =>
        rw [overwriteName_of_some _ hfirst]
        rw [firstName, namePlaces] at hfirst
        rw [hfirst]
        dsimp only
        cases hsize : getAslNameDataSize table current with
        | none => rfl
        | some origDataSize =>
          rw [overwriteAt]
          dsimp only
          split <;> rfl
    · rw [bind_of_value rfl, if_pos hblock, if_pos hblock]
      rfl

theorem mem_log_readBytes {offset : ℕ} {a : TableAccess} :
    a ∈ (readBytes table offset n).log ↔
      ∃ i, offset ≤ i ∧ i < offset + n ∧ a = .read i := by
  rw [readBytes, List.mem_map]
  simp only [List.mem_range'_1, and_assoc, eq_comm]

theorem log_readIsNameAt : ∀ a ∈ (readIsNameAt table nameSignature current).log,
    ∃ i < current + 5, a = .read i := by
  intro a ha
  rw [readIsNameAt, log_bind, List.mem_append, readByte, log_access, List.mem_singleton] at ha
  rcases ha with rfl | ha
  · exact ⟨current, by omega, rfl⟩
  · rw [value_access] at ha
    split at ha
    · exact absurd ha List.not_mem_nil
    · rw [bind_pure_eq, mem_log_readBytes] at ha
      obtain ⟨i, -, hi, rfl⟩ := ha
      exact ⟨i, by omega, rfl⟩

theorem log_readFirstName {places : List ℕ} {limit : ℕ} (h : ∀ c ∈ places, c + 5 ≤ limit) :
    ∀ a ∈ (readFirstName table nameSignature places).log, ∃ i < limit, a = .read i := by
  induction places with
  | nil => exact fun a ha => absurd ha List.not_mem_nil
  | cons c places ih =>
    obtain ⟨hc, hrest⟩ := List.forall_mem_cons.mp h
    intro a ha
    rw [readFirstName, log_bind, List.mem_append] at ha
    rcases ha with ha | ha
    · obtain ⟨i, hi, rfl⟩ := log_readIsNameAt a ha
      exact ⟨i, by omega, rfl⟩
    · split at ha
      · exact absurd ha List.not_mem_nil
      · exact ih hrest a ha

theorem mem_log_readAslNameDataSize {a : TableAccess} :
    a ∈ (readAslNameDataSize table current).log ↔ a = .read (current + 5) ∨
      (table.getD (current + 5) 0 = amlStringPrefix ∧ ∃ i, current + 6 ≤ i ∧
        i < current + 6 + asciiStrSize table (current + 6) ∧ a = .read i) := by
  rw [readAslNameDataSize, log_bind, List.mem_append, readByte, log_access, List.mem_singleton,
    value_access]
  refine or_congr_right ?_
  by_cases h : table.getD (current + 5) 0 = amlStringPrefix
  · rw [if_pos h, bind_pure_eq, readAsciiStrSize, List.mem_map]
    simp only [List.mem_range'_1, and_assoc, eq_comm, h, true_and]
  · rw [if_neg h]
    exact iff_of_false List.not_mem_nil fun hstring => h hstring.1

theorem overwriteAt_of_lt {size : ℕ} {buffer : List Byte} (h : size < buffer.length) :
    overwriteAt table buffer current (some size) = pure (.bufferTooSmall, table) :=
  if_pos h

theorem overwriteAt_of_le {size : ℕ} {buffer : List Byte} (h : buffer.length ≤ size) :
    overwriteAt table buffer current (some size) = ⟨(.success, splice table (current + 6) buffer),
      (List.range' (current + 6) buffer.length).map .write⟩ :=
  if_neg (Nat.not_lt.mpr h)

theorem firstName_bounds (h : firstName table nameSignature = some current) :
    acpiHeaderSize ≤ current ∧ current + 5 < tableLength table ∧
      isNameAt table nameSignature current = true := by
  have hmem := List.mem_of_find?_eq_some h
  rw [namePlaces, List.mem_range'_1] at hmem
  exact ⟨hmem.1, by omega, List.find?_some h⟩

/-- The string ends and the bytes that are overwritten lie inside of the table. -/
structure DataInside (table buffer : List Byte) (current : ℕ) : Prop where
  string : table.getD (current + 5) 0 = amlStringPrefix →
    current + 6 + asciiStrSize table (current + 6) ≤ tableLength table
  integer : ∀ width, AmlWidth.ofOpcode (table.getD (current + 5) 0) = some width →
    buffer.length ≤ width.bytes → current + 6 + buffer.length ≤ tableLength table

/-- No byte behind the table is read, and either one definition inside of the table gets new
bytes or nothing is changed. -/
structure UpdatesInside (table : List Byte) (update : AslUpdate) : Prop where
  reads : ∀ i, .read i ∈ (readAslUpdateName table update).log → i < tableLength table
  success : ∀ table', (readAslUpdateName table update).value = (.success, table') →
    ∃ current buffer, update.buffer = some buffer ∧ acpiHeaderSize ≤ current ∧
      isNameAt table update.nameSignature current = true ∧
      (∀ i, .write i ∈ (readAslUpdateName table update).log →
        current + 6 ≤ i ∧ i < current + 6 + buffer.length) ∧
      current + 6 + buffer.length ≤ tableLength table ∧
      table' = splice table (current + 6) buffer
  failure : ∀ status table', status ≠ AslStatus.success →
    (readAslUpdateName table update).value = (status, table') → table' = table ∧
      ∀ i, .write i ∉ (readAslUpdateName table update).log

theorem namePlaces_lt : ∀ c ∈ namePlaces table, c + 5 ≤ tableLength table := by
  intro c hc
  rw [namePlaces, List.mem_range'_1] at hc
  omega

theorem updatesInside_of_rejected (h : UpdateRejected table update)
    (hlength : acpiHeaderSize ≤ tableLength table) : UpdatesInside table update := by
  obtain ⟨⟨status, hstatus, hvalue⟩, hlog⟩ := readAslUpdateName_of_rejected h
  have hheader : 4 ≤ acpiHeaderSize := by decide
  constructor
  · intro i hi
    obtain ⟨_, hlt, heq⟩ := hlog _ hi
    cases heq
    omega
  · intro table' hsuccess
    rw [hvalue] at hsuccess
    cases hsuccess
    exact absurd rfl hstatus
  · intro status' table' _ hfailure
    rw [hvalue] at hfailure
    cases hfailure
    refine ⟨rfl, fun i hi => ?_⟩
    obtain ⟨_, -, heq⟩ := hlog _ hi
    cases heq

/-- The accesses of an update that is not rejected. -/
theorem mem_log_readAslUpdateName {a : TableAccess} (h : ¬UpdateRejected table update) :
    a ∈ (readAslUpdateName table update).log ↔ (∃ i < 8, a = .read i) ∨
      a ∈ (overwriteName table update.nameSignature (update.buffer.getD [])).log := by
  rw [readAslUpdateName_of_not_rejected h, List.mem_append, List.mem_append, ← or_assoc]
  refine or_congr_left ?_
  simp only [List.mem_map, List.mem_range'_1]
  constructor
  · rintro (⟨i, hi, rfl⟩ | ⟨i, hi, rfl⟩) <;> exact ⟨i, by omega, rfl⟩
  · rintro ⟨i, hi, rfl⟩
    by_cases hlow : i < 4
    · exact .inl ⟨i, by omega, rfl⟩
    · exact .inr ⟨i, by omega, rfl⟩

theorem updatesInside_of_none (hrejected : ¬UpdateRejected table update)
    (hlength : acpiHeaderSize ≤ tableLength table)
    (hfirst : firstName table update.nameSignature = none) : UpdatesInside table update := by
  have hheader : 8 ≤ acpiHeaderSize := by decide
  have hvalue : (readAslUpdateName table update).value = (.notFound, table) := by
    rw [readAslUpdateName_of_not_rejected hrejected, overwriteName_of_none _ hfirst]
  have hlog : ∀ a ∈ (readAslUpdateName table update).log, ∃ i < tableLength table,
      a = .read i := by
    intro a ha
    rw [mem_log_readAslUpdateName hrejected, overwriteName_of_none _ hfirst,
      List.append_nil] at ha
    rcases ha with ⟨i, hi, rfl⟩ | ha
    · exact ⟨i, by omega, rfl⟩
    · exact log_readFirstName namePlaces_lt a ha
  constructor
  · intro i hi
    obtain ⟨_, hlt, heq⟩ := hlog _ hi
    cases heq
    exact hlt
  · intro table' hsuccess
    rw [hvalue] at hsuccess
    cases hsuccess
  · intro status table' _ hfailure
    rw [hvalue] at hfailure
    cases hfailure
    refine ⟨rfl, fun i hi => ?_⟩
    obtain ⟨_, -, heq⟩ := hlog _ hi
    cases heq

/-- The data that are overwritten are no longer than the old data. -/
theorem DataInside.length_le {size : ℕ} {buffer : List Byte} (h : DataInside table buffer current)
    (hsize : getAslNameDataSize table current = some size) (hle : buffer.length ≤ size) :
    current + 6 + buffer.length ≤ tableLength table := by
  rw [getAslNameDataSize] at hsize
  by_cases hstring : table.getD (current + 5) 0 = amlStringPrefix
  · rw [if_pos hstring, Option.some_inj] at hsize
    have := h.string hstring
    omega
  · rw [if_neg hstring, Option.map_eq_some_iff] at hsize
    obtain ⟨width, hwidth, rfl⟩ := hsize
    exact h.integer width hwidth hle

theorem log_overwriteAt {buffer : List Byte} {size : Option ℕ} :
    ∀ a ∈ (overwriteAt table buffer current size).log,
      ∃ i, current + 6 ≤ i ∧ i < current + 6 + buffer.length ∧ a = .write i := by
  intro a ha
  cases size with
  | none => exact absurd ha List.not_mem_nil
  | some size =>
    by_cases h : size < buffer.length
    · rw [overwriteAt_of_lt h] at ha
      exact absurd ha List.not_mem_nil
    · rw [overwriteAt_of_le (Nat.not_lt.mp h)] at ha
      obtain ⟨i, hi, rfl⟩ := List.mem_map.mp ha
      obtain ⟨hlow, hhigh⟩ := List.mem_range'_1.mp hi
      exact ⟨i, hlow, hhigh, rfl⟩

theorem overwriteAt_success {table' buffer : List Byte} {size : Option ℕ}
    (h : (overwriteAt table buffer current size).value = (.success, table')) :
    ∃ origDataSize, size = some origDataSize ∧ buffer.length ≤ origDataSize ∧
      table' = splice table (current + 6) buffer := by
  cases size with
  | none => cases h
  | some size =>
    by_cases hlt : size < buffer.length
    · rw [overwriteAt_of_lt hlt] at h
      cases h
    · rw [overwriteAt_of_le (Nat.not_lt.mp hlt)] at h
      cases h
      exact ⟨size, rfl, Nat.not_lt.mp hlt, rfl⟩

theorem overwriteAt_failure {table' buffer : List Byte} {size : Option ℕ} {status : AslStatus}
    (hstatus : status ≠ .success)
    (h : (overwriteAt table buffer current size).value = (status, table')) :
    table' = table ∧ (overwriteAt table buffer current size).log = [] := by
  cases size with
  | none =>
    cases h
    exact ⟨rfl, rfl⟩
  | some size =>
    by_cases hlt : size < buffer.length
    · rw [overwriteAt_of_lt hlt] at h ⊢
      cases h
      exact ⟨rfl, rfl⟩
    · rw [overwriteAt_of_le (Nat.not_lt.mp hlt)] at h
      cases h
      exact absurd rfl hstatus

section
variable (hrejected : ¬UpdateRejected table update)
  (hfirst : firstName table update.nameSignature = some current)
include hrejected hfirst

theorem mem_log_of_first {a : TableAccess} : a ∈ (readAslUpdateName table update).log ↔
    (∃ i < 8, a = .read i) ∨
      a ∈ (readFirstName table update.nameSignature (namePlaces table)).log ∨
      a ∈ (readAslNameDataSize table current).log ∨
      a ∈ (overwriteAt table (update.buffer.getD []) current
        (getAslNameDataSize table current)).log := by
  rw [mem_log_readAslUpdateName hrejected, overwriteName_of_some _ hfirst, List.mem_append,
    List.mem_append]

theorem value_of_first : (readAslUpdateName table update).value =
    (overwriteAt table (update.buffer.getD []) current
      (getAslNameDataSize table current)).value := by
  rw [readAslUpdateName_of_not_rejected hrejected, overwriteName_of_some _ hfirst]

theorem DataInside.updatesInside (hlength : acpiHeaderSize ≤ tableLength table)
    (h : DataInside table (update.buffer.getD []) current) : UpdatesInside table update := by
  obtain ⟨hstart, hend, hname⟩ := firstName_bounds hfirst
  have hheader : 8 ≤ acpiHeaderSize := by decide
  have hbuffer : update.buffer = some (update.buffer.getD []) := by
    cases hbuffer : update.buffer with
    | none =>
      refine absurd (.inl ?_) hrejected
      rw [hbuffer, Option.getD_none]
    | some buffer => rfl
  have hwrite : ∀ i, .write i ∈ (readAslUpdateName table update).log →
      .write i ∈ (overwriteAt table (update.buffer.getD []) current
        (getAslNameDataSize table current)).log := by
    intro i hi
    rw [mem_log_of_first hrejected hfirst] at hi
    rcases hi with ⟨_, -, heq⟩ | hi | hi | hi
    · cases heq
    · obtain ⟨_, -, heq⟩ := log_readFirstName namePlaces_lt _ hi
      cases heq
    · obtain heq | ⟨-, _, -, -, heq⟩ := mem_log_readAslNameDataSize.mp hi <;> cases heq
    · exact hi
  constructor
  · intro i hi
    rw [mem_log_of_first hrejected hfirst] at hi
    rcases hi with ⟨_, hlt, heq⟩ | hi | hi | hi
    · cases heq
      omega
    · obtain ⟨_, hlt, heq⟩ := log_readFirstName namePlaces_lt _ hi
      cases heq
      exact hlt
    · rcases mem_log_readAslNameDataSize.mp hi with heq | ⟨hstring, _, -, hlt, heq⟩
      · cases heq
        exact hend
      · cases heq
        exact hlt.trans_le (h.string hstring)
    · obtain ⟨_, -, -, heq⟩ := log_overwriteAt _ hi
      cases heq
  · intro table' hsuccess
    rw [value_of_first hrejected hfirst] at hsuccess
    obtain ⟨size, hsize, hle, rfl⟩ := overwriteAt_success hsuccess
    refine ⟨current, _, hbuffer, hstart, hname, fun i hi => ?_, h.length_le hsize hle, rfl⟩
    obtain ⟨_, hlow, hhigh, heq⟩ := log_overwriteAt _ (hwrite i hi)
    cases heq
    exact ⟨hlow, hhigh⟩
  · intro status table' hstatus hfailure
    rw [value_of_first hrejected hfirst] at hfailure
    obtain ⟨rfl, hlog⟩ := overwriteAt_failure hstatus hfailure
    refine ⟨rfl, fun i hi => ?_⟩
    have hmem := hwrite i hi
    rw [hlog] at hmem
    exact absurd hmem List.not_mem_nil

theorem UpdatesInside.dataInside (h : UpdatesInside table update) :
    DataInside table (update.buffer.getD []) current := by
  have hnonempty : update.buffer.getD [] ≠ [] := fun heq => hrejected (.inl heq)
  have hlength := List.length_pos_iff.mpr hnonempty
  constructor
  · intro hstring
    have hsize : 0 < asciiStrSize table (current + 6) := Nat.succ_pos _
    have hread := h.reads (current + 6 + asciiStrSize table (current + 6) - 1)
      ((mem_log_of_first hrejected hfirst).mpr (.inr (.inr (.inl
        (mem_log_readAslNameDataSize.mpr (.inr ⟨hstring, _, by omega, by omega, rfl⟩))))))
    omega
  · intro width hwidth hle
    have hsize : getAslNameDataSize table current = some width.bytes := by
      have hop := AmlWidth.opcode_of_ofOpcode hwidth
      have hne : table.getD (current + 5) 0 ≠ amlStringPrefix := hop ▸ width.opcode_ne_string
      rw [getAslNameDataSize, if_neg hne, hwidth, Option.map_some]
    have hvalue := value_of_first hrejected hfirst
    rw [hsize, overwriteAt_of_le hle] at hvalue
    obtain ⟨current', buffer, hbuffer, -, -, hwrites, hinside, -⟩ := h.success _ hvalue
    have hlast : .write (current + 6 + (update.buffer.getD []).length - 1) ∈
        (readAslUpdateName table update).log := by
      rw [mem_log_of_first hrejected hfirst, hsize, overwriteAt_of_le hle]
      exact .inr (.inr (.inr (List.mem_map.mpr ⟨_, List.mem_range'_1.mpr (by omega), rfl⟩)))
    have hlt := (hwrites _ hlast).2
    rw [hbuffer, Option.getD_some] at hlt ⊢
    rw [hbuffer, Option.getD_some] at hlength
    omega

end

/-- An update stays inside of its table exactly where it is rejected or the data of the first
match do. -/
theorem updatesInside_iff (table : List Byte) (update : AslUpdate)
    (hlength : acpiHeaderSize ≤ tableLength table) :
    UpdatesInside table update ↔ UpdateRejected table update ∨
      ∀ current, firstName table update.nameSignature = some current →
        DataInside table (update.buffer.getD []) current := by
  by_cases hrejected : UpdateRejected table update
  · exact iff_of_true (updatesInside_of_rejected hrejected hlength) (.inl hrejected)
  · rw [or_iff_right hrejected]
    constructor
    · intro h current hfirst
      exact h.dataInside hrejected hfirst
    · intro h
      cases hfirst : firstName table update.nameSignature with
      | none => exact updatesInside_of_none hrejected hlength hfirst
      | some current => exact (h current hfirst).updatesInside hrejected hfirst hlength

/-- A table that ends behind the opcode of a string, and the terminator of this string. -/
def unterminatedTable : List Byte :=
  [0x44, 0x53, 0x44, 0x54, 42, 0, 0, 0] ++ List.replicate 28 0 ++
    [0x08, 0x4E, 0x41, 0x4D, 0x45, 0x0D] ++ [0]

theorem updatesInside_unterminatedTable_iff :
    UpdatesInside unterminatedTable ⟨0x454D414E, some [0x31]⟩ ↔
      UpdateRejected unterminatedTable ⟨0x454D414E, some [0x31]⟩ ∨
        ∀ current, firstName unterminatedTable 0x454D414E = some current →
          DataInside unterminatedTable [0x31] current :=
  updatesInside_iff unterminatedTable ⟨0x454D414E, some [0x31]⟩ (by decide)

/-- The string is read behind the end of the table. -/
theorem unterminatedTable_not_updatesInside :
    ¬∀ (table : List Byte) (update : AslUpdate), acpiHeaderSize ≤ tableLength table →
      tableLength table ≤ table.length → UpdatesInside table update := by
  intro h
  have hread : .read 42 ∈
      (readAslUpdateName unterminatedTable ⟨0x454D414E, some [0x31]⟩).log := by
    decide +kernel
  have hlt := (h unterminatedTable ⟨0x454D414E, some [0x31]⟩ (by decide) (by decide)).reads 42 hread
  exact absurd hlt (by decide)

end ProjectMu
