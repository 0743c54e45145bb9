import ProjectMu.AslUpdate

/-!
# Updates that change one definition

With the definition found where the scan stops, the data size is that of its value and
the write replaces a part of it. A value that the new bytes cover is one of the same kind
afterwards, so the table parses again and only the named definition has changed.
-/

namespace ProjectMu

open ByteCodec ByteRange

section Definition

variable (front tail : List Byte) (o : AmlObject)

theorem drop_front (k : ℕ) (l : List Byte) : (front ++ l).drop (front.length + k) = l.drop k := by
  rw [List.drop_append, List.drop_eq_nil_of_le (by omega), List.nil_append,
    Nat.add_sub_cancel_left]

theorem getD_front (k : ℕ) (l : List Byte) :
    (front ++ l).getD (front.length + k) 0 = l.getD k 0 := by
  rw [List.getD_eq_getElem?_getD, List.getElem?_append_right (by omega), Nat.add_sub_cancel_left,
    List.getD_eq_getElem?_getD]

theorem encode_object : amlObjectCode.encode o =
    amlNameOp :: (o.name.bytes ++ o.value.opcode :: o.value.payload) := rfl

theorem isNameAt_definition :
    isNameAt (front ++ (amlObjectCode.encode o ++ tail)) o.name.signature front.length = true := by
  have hop := getD_front front 0 (amlObjectCode.encode o ++ tail)
  have hname := drop_front front 1 (amlObjectCode.encode o ++ tail)
  rw [isNameAt, slice, hname, ← Nat.add_zero front.length, hop]
  simp [encode_object, List.take_left' o.name.length_bytes, NameSegment.signature]

theorem drop_payload :
    (front ++ (amlObjectCode.encode o ++ tail)).drop (front.length + 6) =
      o.value.payload ++ tail := by
  rw [drop_front, encode_object]
  have hname := o.name.length_bytes
  rw [List.cons_append, List.append_assoc, List.drop_succ_cons, List.drop_append,
    List.drop_eq_nil_of_le (by omega), hname]
  rfl

theorem getAslNameDataSize_definition :
    getAslNameDataSize (front ++ (amlObjectCode.encode o ++ tail)) front.length =
      some o.value.payload.length := by
  have hop : (front ++ (amlObjectCode.encode o ++ tail)).getD (front.length + 5) 0 =
      o.value.opcode := by
    have hname := o.name.length_bytes
    rw [getD_front, encode_object, List.cons_append, List.getD_cons_succ, List.append_assoc]
    have := getD_front o.name.bytes 0 (o.value.opcode :: o.value.payload ++ tail)
    rw [hname] at this
    exact this
  unfold getAslNameDataSize asciiStrSize
  rw [hop, drop_payload]
  cases hv : o.value with
  | string chars hchars =>
    have htake : (chars ++ 0 :: tail).takeWhile isAmlChar = chars := by
      rw [List.takeWhile_append_of_pos hchars, List.takeWhile_cons_of_neg (by decide),
        List.append_nil]
    rw [AmlValue.payload, List.append_assoc, List.singleton_append, htake, List.length_append]
    rfl
  | integer width value hvalue =>
    simp [AmlValue.opcode, AmlValue.payload, width.opcode_ne_string]

theorem splice_definition {buffer : List Byte} {value : AmlValue}
    (hle : buffer.length ≤ o.value.payload.length) (hop : value.opcode = o.value.opcode)
    (hpay : value.payload = buffer ++ o.value.payload.drop buffer.length) :
    splice (front ++ (amlObjectCode.encode o ++ tail)) (front.length + 6) buffer =
      front ++ (amlObjectCode.encode { o with value := value } ++ tail) := by
  have hsplit (v : AmlValue) : front ++ (amlObjectCode.encode { o with value := v } ++ tail) =
      (front ++ amlNameOp :: (o.name.bytes ++ [v.opcode])) ++ (v.payload ++ tail) := by
    simp [encode_object]
  have hlen (v : AmlValue) :
      (front ++ amlNameOp :: (o.name.bytes ++ [v.opcode])).length = front.length + 6 := by
    simp [o.name.length_bytes]
  have hold := hsplit o.value
  rw [splice, ← List.drop_drop, drop_payload, hold, List.take_left' (hlen o.value), hsplit value,
    hop, hpay, List.drop_append_of_le_length hle]
  simp only [List.append_assoc]

end Definition

/-- Overwriting a value that the new bytes cover gives a value of the same kind that shows them. -/
theorem AmlValue.overwrite (v : AmlValue) {buffer : List Byte}
    (hle : buffer.length ≤ v.payload.length) (hc : v.CoveredBy buffer) :
    ∃ v' : AmlValue, v'.opcode = v.opcode ∧
      v'.payload = buffer ++ v.payload.drop buffer.length ∧ v'.Shows buffer := by
  cases v with
  | string chars hchars =>
    have hsize : buffer.length ≤ chars.length + 1 := by
      simpa [AmlValue.payload] using hle
    have hlen := hc hsize
    set head := buffer.takeWhile isAmlChar with hhead
    have hsplit : head ++ buffer.dropWhile isAmlChar = buffer := List.takeWhile_append_dropWhile
    refine ⟨.string head (fun _ h => List.mem_takeWhile_imp h), rfl, ?_, rfl⟩
    cases hd : buffer.dropWhile isAmlChar with
    | nil =>
      -- without a terminator of its own the string keeps the old one
      have hb : head = buffer := by rw [← hsplit, hd, List.append_nil]
      rw [AmlValue.payload, AmlValue.payload, hb, ← hb, hlen, List.drop_left]
    | cons b tail =>
      have hb : b = 0 := by
        have := List.head_dropWhile_not isAmlChar (l := buffer) (by simp [hd])
        simpa [hd, isAmlChar_eq_false] using this
      have hbuffer : buffer.length = chars.length + 1 + tail.length := by
        rw [← hsplit, hd, List.length_append, hlen, List.length_cons]
        omega
      have htail : tail = [] := List.eq_nil_of_length_eq_zero (by omega)
      have hnew : buffer = head ++ [0] := by rw [← hsplit, hd, hb, htail]
      have hdrop : (chars ++ [0]).drop buffer.length = ([] : List Byte) := by
        apply List.drop_eq_nil_of_le
        rw [List.length_append, List.length_singleton]
        omega
      rw [AmlValue.payload, AmlValue.payload, hdrop, List.append_nil]
      exact hnew.symm
  | integer width value hvalue =>
    have hw : buffer.length ≤ width.bytes := by simpa [AmlValue.payload] using hle
    set bytes := buffer ++ (toLittleEndian width.bytes value).drop buffer.length with hbytes
    have hlen : bytes.length = width.bytes := by
      rw [hbytes, List.length_append, List.length_drop, length_toLittleEndian]
      omega
    have hshow : littleEndian bytes = littleEndian buffer := by
      rw [hbytes, littleEndian_append, drop_toLittleEndian, Nat.div_eq_of_lt hc,
        littleEndian_toLittleEndian, Nat.zero_mod, Nat.mul_zero, Nat.add_zero]
    have hlt := littleEndian_lt bytes
    rw [hlen] at hlt
    have hback := toLittleEndian_littleEndian bytes
    rw [hlen] at hback
    exact ⟨.integer width (littleEndian bytes) hlt, rfl, hback, hshow⟩

/-- A call that does not succeed leaves the table, and one that does overwrites the value at
the first match. -/
theorem aslUpdateName_cases (table : List Byte) (update : AslUpdate) :
    ((aslUpdateName table update).1 ≠ .success ∧ (aslUpdateName table update).2 = table) ∨
      ∃ buffer current origDataSize, update.buffer = some buffer ∧ buffer ≠ [] ∧
        (List.range' acpiHeaderSize (tableLength table - 5 - acpiHeaderSize)).find?
          (isNameAt table update.nameSignature) = some current ∧
        getAslNameDataSize table current = some origDataSize ∧ buffer.length ≤ origDataSize ∧
        aslUpdateName table update = (.success, splice table (current + 6) buffer) := by
  unfold aslUpdateName
  rcases update.buffer with _ | _ | ⟨b, bs⟩
  · exact Or.inl ⟨by simp, rfl⟩
  · exact Or.inl ⟨by simp, rfl⟩
  · dsimp only
    by_cases hblock : ¬IsDefinitionBlock table
    · rw [if_pos hblock]
      exact Or.inl ⟨by simp, rfl⟩
    · rw [if_neg hblock]
      cases hfind : (List.range' acpiHeaderSize (tableLength table - 5 - acpiHeaderSize)).find?
          (isNameAt table update.nameSignature) with
      | none => exact Or.inl ⟨by simp, rfl⟩
      | some current =>
        dsimp only
        cases hsize : getAslNameDataSize table current with
        | none => exact Or.inl ⟨by simp, rfl⟩
        | some size =>
          dsimp only
          by_cases hle : size < (b :: bs).length
          · rw [if_pos hle]
            exact Or.inl ⟨by simp, rfl⟩
          · right
            refine ⟨b :: bs, current, size, rfl, List.cons_ne_nil b bs, rfl, hsize,
              Nat.le_of_not_lt hle, ?_⟩
            rw [if_neg hle]

/-- With nothing before it that looks like it, the definition is the first match. -/
theorem find_definition {table header rest : List Byte} {pre post : List AmlObject}
    {o : AmlObject} (h : TableImage table header (pre ++ o :: post) rest)
    (hfirst : FirstMatch table (pre ++ o :: post) o.name.signature) :
    (List.range' acpiHeaderSize (tableLength table - 5 - acpiHeaderSize)).find?
        (isNameAt table o.name.signature) =
      some (acpiHeaderSize + (amlObjectCode.encodeAll pre).length) := by
  rw [List.find?_range'_eq_some]
  have hfront : table = (header ++ amlObjectCode.encodeAll pre) ++
      (amlObjectCode.encode o ++ (amlObjectCode.encodeAll post ++ rest)) := by
    rw [h.table_eq]
    simp only [PrefixCode.encodeAll_append, PrefixCode.encodeAll_cons, List.append_assoc]
  have hlen : (header ++ amlObjectCode.encodeAll pre).length =
      acpiHeaderSize + (amlObjectCode.encodeAll pre).length := by
    rw [List.length_append, h.headerSize]
  have hobject : 6 ≤ (amlObjectCode.encode o).length := by
    simp only [encode_object, List.length_cons, List.length_append, o.name.length_bytes]
    omega
  refine ⟨?_, ?_, ?_⟩
  · have hat := isNameAt_definition (header ++ amlObjectCode.encodeAll pre)
      (amlObjectCode.encodeAll post ++ rest) o
    rwa [← hfront, hlen] at hat
  · rw [List.mem_range'_1, h.tableLength_eq, PrefixCode.encodeAll_append, PrefixCode.encodeAll_cons,
      List.length_append, List.length_append]
    omega
  · intro i hi hlt
    have := hfirst.before pre o post rfl rfl (i - acpiHeaderSize) (by omega)
    rw [Nat.add_sub_cancel' hi] at this
    simp [this]

theorem find_absent {table header rest : List Byte} {objects : List AmlObject}
    {nameSignature : BitVec 32} (h : TableImage table header objects rest)
    (hfirst : FirstMatch table objects nameSignature)
    (hno : ∀ o ∈ objects, o.name.signature ≠ nameSignature) :
    (List.range' acpiHeaderSize (tableLength table - 5 - acpiHeaderSize)).find?
        (isNameAt table nameSignature) = none := by
  rw [List.find?_range'_eq_none, h.tableLength_eq]
  intro i hi hlt
  have := hfirst.absent hno (i - acpiHeaderSize) (by omega)
  rw [Nat.add_sub_cancel' hi] at this
  simp [this]

section Values

variable {pre post : List AmlObject} {o : AmlObject}

theorem signature_ne_of_mem_pre (hn : ((pre ++ o :: post).map AmlObject.name).Nodup)
    {o' : AmlObject} (h : o' ∈ pre) : o'.name.signature ≠ o.name.signature := by
  intro heq
  have hname := NameSegment.signature_injective heq
  rw [List.map_append, List.map_cons, List.nodup_append] at hn
  exact hn.2.2 o'.name (List.mem_map_of_mem h) o.name List.mem_cons_self hname

theorem valueOf_self (hn : ((pre ++ o :: post).map AmlObject.name).Nodup) :
    valueOf (pre ++ o :: post) o.name.signature = some o.value := by
  have hpre : pre.find? (fun o' => o'.name.signature == o.name.signature) = none := by
    rw [List.find?_eq_none]
    intro o' ho'
    simpa using signature_ne_of_mem_pre hn ho'
  simp [valueOf, List.find?_append, hpre]

theorem valueOf_other (value : AmlValue) {other : BitVec 32} (h : other ≠ o.name.signature) :
    valueOf (pre ++ { o with value := value } :: post) other = valueOf (pre ++ o :: post) other := by
  have hne : (o.name.signature == other) = false := beq_eq_false_iff_ne.mpr h.symm
  simp [valueOf, List.find?_append, hne]

end Values

/-- One successful update that fits. -/
theorem aslUpdateName_local {table header rest : List Byte} {objects : List AmlObject}
    (h : TableImage table header objects rest) (hn : (objects.map AmlObject.name).Nodup)
    {update : AslUpdate} (hfit : UpdateFits table update)
    (hs : (aslUpdateName table update).1 = .success) :
    ∃ objects' buffer, update.buffer = some buffer ∧
      TableImage (aslUpdateName table update).2 header objects' rest ∧
      UpdatedLocally objects objects' update.nameSignature buffer := by
  rcases aslUpdateName_cases table update with ⟨hne, _⟩ | ⟨buffer, current, size, hbuffer, hnil,
    hfind, hsize, hle, hresult⟩
  · exact absurd hs hne
  have htable : (aslUpdateName table update).2 = splice table (current + 6) buffer :=
    congrArg Prod.snd hresult
  obtain ⟨hfirst, hcovered⟩ := hfit buffer hbuffer hnil objects h.parse
  by_cases hno : ∀ o ∈ objects, o.name.signature ≠ update.nameSignature
  · rw [find_absent h hfirst hno] at hfind
    cases hfind
  push Not at hno
  obtain ⟨o, ho, hsig⟩ := hno
  obtain ⟨pre, post, rfl⟩ := List.append_of_mem ho
  rw [← hsig] at hfind hfirst ⊢
  rw [find_definition h hfirst, Option.some.injEq] at hfind
  have hfront : table = (header ++ amlObjectCode.encodeAll pre) ++
      (amlObjectCode.encode o ++ (amlObjectCode.encodeAll post ++ rest)) := by
    rw [h.table_eq]
    simp only [PrefixCode.encodeAll_append, PrefixCode.encodeAll_cons, List.append_assoc]
  have hcurrent : current = (header ++ amlObjectCode.encodeAll pre).length := by
    rw [← hfind, List.length_append, h.headerSize]
  have hpayload : size = o.value.payload.length := by
    have := getAslNameDataSize_definition (header ++ amlObjectCode.encodeAll pre)
      (amlObjectCode.encodeAll post ++ rest) o
    rw [← hfront, ← hcurrent, hsize] at this
    exact Option.some.inj this
  rw [hpayload] at hle
  obtain ⟨value, hop, hpay, hshows⟩ := o.value.overwrite hle (hcovered o ho hsig)
  have hsplice := splice_definition (header ++ amlObjectCode.encodeAll pre)
    (amlObjectCode.encodeAll post ++ rest) o hle hop hpay
  rw [← hfront, ← hcurrent, ← htable] at hsplice
  have hlen : value.payload.length = o.value.payload.length := by
    rw [hpay, List.length_append, List.length_drop]
    omega
  refine ⟨pre ++ { o with value := value } :: post, buffer, hbuffer, ⟨?_, h.headerSize, h.block, ?_⟩,
    ⟨?_, ⟨value, ?_, hshows⟩, fun other hother => valueOf_other value hother⟩⟩
  · rw [hsplice]
    simp only [PrefixCode.encodeAll_append, PrefixCode.encodeAll_cons, List.append_assoc]
  · rw [h.length_eq]
    simp [encode_object, hlen]
  · simp
  · have hn' : ((pre ++ { o with value := value } :: post).map AmlObject.name).Nodup := by
      simpa using hn
    exact valueOf_self hn'

/-- Updates that fit keep the table a table of the same names. -/
theorem runUpdates_isNameTable {table : List Byte} {objects : List AmlObject}
    (h : IsNameTable table objects) (updates : List AslUpdate) (hfit : UpdatesFit table updates) :
    ∃ objects', IsNameTable (runUpdates table updates) objects' := by
  induction updates generalizing table objects with
  | nil => exact ⟨objects, h⟩
  | cons update updates ih =>
    obtain ⟨hone, hrest⟩ := hfit
    obtain ⟨header, rest, himage⟩ := parseTable_eq_some_iff.mp h.parse
    by_cases hs : (aslUpdateName table update).1 = .success
    · obtain ⟨objects', _, _, himage', hlocal⟩ := aslUpdateName_local himage h.nodup hone hs
      have hn : (objects'.map AmlObject.name).Nodup := by
        rw [hlocal.names]
        exact h.nodup
      exact ih ⟨himage'.parse, hn⟩ hrest
    · rcases aslUpdateName_cases table update with ⟨_, hkept⟩ | hdone
      · rw [hkept] at hrest
        have := ih h hrest
        rwa [← hkept] at this
      · obtain ⟨_, _, _, _, _, _, _, _, hresult⟩ := hdone
        exact absurd (congrArg Prod.fst hresult) hs

theorem updatesFit_append {table : List Byte} {a b : List AslUpdate} :
    UpdatesFit table (a ++ b) ↔ UpdatesFit table a ∧ UpdatesFit (runUpdates table a) b := by
  induction a generalizing table with
  | nil => simp [UpdatesFit, runUpdates]
  | cons update a ih =>
    rw [List.cons_append, UpdatesFit, UpdatesFit, ih, and_assoc]
    rfl

/-- In a run of updates that fit, every successful one changes the definition it names to
the value it was given and no other. -/
theorem aslUpdates_local {table : List Byte} {objects : List AmlObject}
    (h : IsNameTable table objects) {updates done later : List AslUpdate} {update : AslUpdate}
    (hfit : UpdatesFit table updates) (hsplit : updates = done ++ update :: later)
    (hs : (aslUpdateName (runUpdates table done) update).1 = .success) :
    ∃ before after buffer, parseTable (runUpdates table done) = some before ∧
      parseTable (aslUpdateName (runUpdates table done) update).2 = some after ∧
      update.buffer = some buffer ∧
      UpdatedLocally before after update.nameSignature buffer := by
  rw [hsplit, updatesFit_append] at hfit
  obtain ⟨hdone, hone, _⟩ := hfit
  obtain ⟨before, hbefore⟩ := runUpdates_isNameTable h done hdone
  obtain ⟨header, rest, himage⟩ := parseTable_eq_some_iff.mp hbefore.parse
  obtain ⟨after, buffer, hbuffer, himage', hlocal⟩ :=
    aslUpdateName_local himage hbefore.nodup hone hs
  exact ⟨before, after, buffer, hbefore.parse, himage'.parse, hbuffer, hlocal⟩

def soidName : NameSegment := ⟨[0x53, 0x4F, 0x49, 0x44], by decide⟩

/-- A DSDT with the single definition of `SOID` as a dword. -/
def soidTable (value : List Byte) : List Byte :=
  [0x44, 0x53, 0x44, 0x54, 0x2E, 0, 0, 0] ++ List.replicate 28 0 ++
    (0x08 :: soidName.bytes ++ 0x0C :: value)

def soidUpdate (buffer : List Byte) : AslUpdate := ⟨soidName.signature, some buffer⟩

theorem soidTable_isNameTable :
    IsNameTable (soidTable [0xFF, 0xFF, 0xFF, 0xFF])
      [⟨soidName, .integer .dword 0xFFFFFFFF (by decide)⟩] :=
  ⟨by decide +kernel, by decide⟩

def sidvName : NameSegment := ⟨[0x53, 0x49, 0x44, 0x56], by decide⟩

/-- A DSDT with the definitions of `SOID` and `SIDV` as dwords. -/
def platformTable (soid sidv : List Byte) : List Byte :=
  [0x44, 0x53, 0x44, 0x54, 0x38, 0, 0, 0] ++ List.replicate 28 0 ++
    (0x08 :: soidName.bytes ++ 0x0C :: soid) ++ (0x08 :: sidvName.bytes ++ 0x0C :: sidv)

def platformObjects (soid sidv : ℕ) (hsoid : soid < 2 ^ 32) (hsidv : sidv < 2 ^ 32) :
    List AmlObject :=
  [⟨soidName, .integer .dword soid hsoid⟩, ⟨sidvName, .integer .dword sidv hsidv⟩]

def sidvUpdate (buffer : List Byte) : AslUpdate := ⟨sidvName.signature, some buffer⟩

theorem platformTable_isNameTable :
    IsNameTable (platformTable [0xFF, 0xFF, 0xFF, 0xFF] [0xFF, 0xFF, 0xFF, 0xFF])
      (platformObjects 0xFFFFFFFF 0xFFFFFFFF (by decide) (by decide)) :=
  ⟨by decide +kernel, by decide⟩

theorem soidUpdate_table :
    (aslUpdateName (platformTable [0xFF, 0xFF, 0xFF, 0xFF] [0xFF, 0xFF, 0xFF, 0xFF])
      (soidUpdate [0x78, 0x56, 0x34, 0x12])).2 =
        platformTable [0x78, 0x56, 0x34, 0x12] [0xFF, 0xFF, 0xFF, 0xFF] := by
  decide +kernel

/-- Both updates are of whole dwords, and the first definition does not look like the second. -/
theorem platformUpdates_fit :
    UpdatesFit (platformTable [0xFF, 0xFF, 0xFF, 0xFF] [0xFF, 0xFF, 0xFF, 0xFF])
      [soidUpdate [0x78, 0x56, 0x34, 0x12], sidvUpdate [1, 0, 2, 0]] := by
  refine ⟨?_, ?_, trivial⟩
  · intro buffer hbuffer _ objects hparse
    obtain rfl : [0x78, 0x56, 0x34, 0x12] = buffer := Option.some.inj hbuffer
    obtain rfl := Option.some.inj (hparse.symm.trans platformTable_isNameTable.parse)
    refine ⟨⟨?_, fun hno => absurd rfl (hno _ List.mem_cons_self)⟩, ?_⟩
    · intro pre o post hsplit hname i hi
      cases pre with
      | nil => simp at hi
      | cons o' pre =>
        cases pre with
        | nil =>
          obtain ⟨-, htail⟩ := List.cons.inj hsplit
          obtain ⟨rfl, -⟩ := List.cons.inj htail
          exact absurd hname (by decide)
        | cons o'' pre => simp [platformObjects] at hsplit
    · intro o ho _
      simp only [platformObjects, List.mem_cons, List.not_mem_nil, or_false] at ho
      rcases ho with rfl | rfl <;> exact (by decide : 0xFFFFFFFF < 256 ^ 4)
  · rw [soidUpdate_table]
    intro buffer hbuffer _ objects hparse
    obtain rfl : [1, 0, 2, 0] = buffer := Option.some.inj hbuffer
    have htable : parseTable (platformTable [0x78, 0x56, 0x34, 0x12] [0xFF, 0xFF, 0xFF, 0xFF]) =
        some (platformObjects 0x12345678 0xFFFFFFFF (by decide) (by decide)) := by
      decide +kernel
    obtain rfl := Option.some.inj (hparse.symm.trans htable)
    refine ⟨⟨?_, fun hno => absurd rfl (hno _ (List.mem_cons_of_mem _ List.mem_cons_self))⟩, ?_⟩
    · intro pre o post hsplit hname i hi
      have hfirst : ∀ i < 10, isNameAt
          (platformTable [0x78, 0x56, 0x34, 0x12] [0xFF, 0xFF, 0xFF, 0xFF]) sidvName.signature
          (acpiHeaderSize + i) = false := by
        decide +kernel
      cases pre with
      | nil => simp at hi
      | cons o' pre =>
        cases pre with
        | nil =>
          obtain ⟨rfl, -⟩ := List.cons.inj hsplit
          exact hfirst i hi
        | cons o'' pre => simp [platformObjects] at hsplit
    · intro o ho _
      simp only [platformObjects, List.mem_cons, List.not_mem_nil, or_false] at ho
      rcases ho with rfl | rfl
      · exact (by decide : 0x12345678 < 256 ^ 4)
      · exact (by decide : 0xFFFFFFFF < 256 ^ 4)

/-- With `SOID` updated already, the update of `SIDV` leaves it alone. -/
theorem aslUpdates_local_sidv :
    let table := (aslUpdateName
      (platformTable [0xFF, 0xFF, 0xFF, 0xFF] [0xFF, 0xFF, 0xFF, 0xFF])
      (soidUpdate [0x78, 0x56, 0x34, 0x12])).2
    ∃ before after buffer, parseTable table = some before ∧
      parseTable (aslUpdateName table (sidvUpdate [1, 0, 2, 0])).2 = some after ∧
      (sidvUpdate [1, 0, 2, 0]).buffer = some buffer ∧
      UpdatedLocally before after sidvName.signature buffer :=
  @aslUpdates_local _ _ platformTable_isNameTable _ [soidUpdate [0x78, 0x56, 0x34, 0x12]] []
    (sidvUpdate [1, 0, 2, 0]) platformUpdates_fit rfl (by decide +kernel)

/-- A shorter integer keeps the high bytes of the old one. -/
theorem aslUpdateName_staleBytes :
    IsNameTable (soidTable [0xFF, 0xFF, 0xFF, 0xFF])
        [⟨soidName, .integer .dword 0xFFFFFFFF (by decide)⟩] ∧
      (aslUpdateName (soidTable [0xFF, 0xFF, 0xFF, 0xFF]) (soidUpdate [0x78, 0x56])).1 =
        .success ∧
      parseTable (aslUpdateName (soidTable [0xFF, 0xFF, 0xFF, 0xFF])
        (soidUpdate [0x78, 0x56])).2 =
        some [⟨soidName, .integer .dword 0xFFFF5678 (by decide)⟩] ∧
      ¬(AmlValue.integer .dword 0xFFFF5678 (by decide)).Shows [0x78, 0x56] := by
  refine ⟨soidTable_isNameTable, by decide +kernel, by decide +kernel, ?_⟩
  change ¬0xFFFF5678 = littleEndian [0x78, 0x56]
  decide

end ProjectMu
