import ProjectMu.ByteCodec
import ProjectMu.PrefixCode
import Mathlib.Data.List.TakeWhile

/-!
# Name definitions in AML

`Name(NAME, value)` is written as the name opcode, the four characters of the name and
the value: a zero-terminated string or an integer of one, two, four or eight bytes, each
behind the opcode of its kind.
-/

namespace ProjectMu

open ByteCodec

def amlNameOp : Byte := 0x08
def amlBytePrefix : Byte := 0x0A
def amlWordPrefix : Byte := 0x0B
def amlDwordPrefix : Byte := 0x0C
def amlStringPrefix : Byte := 0x0D
def amlQwordPrefix : Byte := 0x0E

/-- An upper-case letter or an underscore. -/
def isLeadNameChar (b : Byte) : Bool := (0x41 ≤ b && b ≤ 0x5A) || b == 0x5F

def isNameChar (b : Byte) : Bool := isLeadNameChar b || (0x30 ≤ b && b ≤ 0x39)

def IsNameSegment (bytes : List Byte) : Prop :=
  bytes.length = 4 ∧ (∃ b ∈ bytes.head?, isLeadNameChar b) ∧ ∀ b ∈ bytes, isNameChar b

instance (bytes : List Byte) : Decidable (IsNameSegment bytes) :=
  inferInstanceAs (Decidable (_ ∧ (∃ b ∈ bytes.head?, _) ∧ _))

structure NameSegment where
  bytes : List Byte
  valid : IsNameSegment bytes
  deriving DecidableEq

@[simp] theorem NameSegment.length_bytes (name : NameSegment) : name.bytes.length = 4 :=
  name.valid.1

/-- The name as `SIGNATURE_32` writes it. -/
def NameSegment.signature (name : NameSegment) : BitVec 32 :=
  BitVec.ofNat 32 (littleEndian name.bytes)

inductive AmlWidth
  | byte
  | word
  | dword
  | qword
  deriving DecidableEq, Repr

def AmlWidth.bytes : AmlWidth → ℕ
  | .byte => 1
  | .word => 2
  | .dword => 4
  | .qword => 8

def AmlWidth.opcode : AmlWidth → Byte
  | .byte => amlBytePrefix
  | .word => amlWordPrefix
  | .dword => amlDwordPrefix
  | .qword => amlQwordPrefix

def AmlWidth.ofOpcode (op : Byte) : Option AmlWidth :=
  if op = amlBytePrefix then some .byte
  else if op = amlWordPrefix then some .word
  else if op = amlDwordPrefix then some .dword
  else if op = amlQwordPrefix then some .qword
  else none

@[simp] theorem AmlWidth.ofOpcode_opcode (w : AmlWidth) : AmlWidth.ofOpcode w.opcode = some w := by
  cases w <;> rfl

theorem AmlWidth.opcode_ne_string (w : AmlWidth) : w.opcode ≠ amlStringPrefix := by
  cases w <;> decide

theorem AmlWidth.opcode_of_ofOpcode {op : Byte} {w : AmlWidth}
    (h : AmlWidth.ofOpcode op = some w) : op = w.opcode := by
  unfold AmlWidth.ofOpcode at h
  split_ifs at h with h1 h2 h3 h4 <;> cases h
  · exact h1
  · exact h2
  · exact h3
  · exact h4

/-- Any byte but the terminator of strings. -/
def isAmlChar (b : Byte) : Bool := b != 0

theorem isAmlChar_eq_false {b : Byte} : isAmlChar b = false ↔ b = 0 := by
  simp [isAmlChar]

inductive AmlValue
  | string (chars : List Byte) (valid : ∀ b ∈ chars, isAmlChar b)
  | integer (width : AmlWidth) (value : ℕ) (fits : value < 256 ^ width.bytes)
  deriving DecidableEq

def AmlValue.opcode : AmlValue → Byte
  | .string _ _ => amlStringPrefix
  | .integer width _ _ => width.opcode

/-- The bytes behind the opcode. -/
def AmlValue.payload : AmlValue → List Byte
  | .string chars _ => chars ++ [0]
  | .integer width value _ => toLittleEndian width.bytes value

def parseAmlString (bytes : List Byte) : Option (AmlValue × List Byte) :=
  match bytes.dropWhile isAmlChar with
  | [] => none
  | _ :: rest =>
    some (.string (bytes.takeWhile isAmlChar) (fun _ h => List.mem_takeWhile_imp h), rest)

def parseAmlInteger (width : AmlWidth) (bytes : List Byte) : Option (AmlValue × List Byte) :=
  if h : width.bytes ≤ bytes.length then
    some (.integer width (littleEndian (bytes.take width.bytes)) (by
      have hlt := littleEndian_lt (bytes.take width.bytes)
      rwa [List.length_take, min_eq_left h] at hlt), bytes.drop width.bytes)
  else none

def parseAmlValue : List Byte → Option (AmlValue × List Byte)
  | [] => none
  | op :: bytes =>
    if op = amlStringPrefix then parseAmlString bytes
    else (AmlWidth.ofOpcode op).bind (fun width => parseAmlInteger width bytes)

theorem parseAmlString_payload {chars : List Byte} (h : ∀ b ∈ chars, isAmlChar b)
    (rest : List Byte) :
    parseAmlString (chars ++ 0 :: rest) = some (.string chars h, rest) := by
  have hdrop : (chars ++ 0 :: rest).dropWhile isAmlChar = 0 :: rest := by
    rw [List.dropWhile_append_of_pos h]
    rfl
  have htake : (chars ++ 0 :: rest).takeWhile isAmlChar = chars := by
    rw [List.takeWhile_append_of_pos h, List.takeWhile_cons_of_neg (by decide), List.append_nil]
  simp only [parseAmlString, hdrop, htake]

theorem parseAmlInteger_payload (width : AmlWidth) {value : ℕ} (h : value < 256 ^ width.bytes)
    (rest : List Byte) :
    parseAmlInteger width (toLittleEndian width.bytes value ++ rest) =
      some (.integer width value h, rest) := by
  have hlen := length_toLittleEndian width.bytes value
  have hv : littleEndian (toLittleEndian width.bytes value) = value := by
    rw [littleEndian_toLittleEndian, Nat.mod_eq_of_lt h]
  simp [parseAmlInteger, List.take_left' hlen, List.drop_left' hlen, hv]

theorem payload_of_parseAmlString {bytes rest : List Byte} {value : AmlValue}
    (h : parseAmlString bytes = some (value, rest)) :
    value.opcode = amlStringPrefix ∧ bytes = value.payload ++ rest := by
  unfold parseAmlString at h
  cases hd : bytes.dropWhile isAmlChar with
  | nil =>
    rw [hd] at h
    cases h
  | cons b tail =>
    simp only [hd, Option.some.injEq, Prod.mk.injEq] at h
    obtain ⟨rfl, rfl⟩ := h
    have hb : b = 0 := by
      have := List.head_dropWhile_not isAmlChar (l := bytes) (by simp [hd])
      simpa [hd, isAmlChar_eq_false] using this
    have hsplit := List.takeWhile_append_dropWhile (p := isAmlChar) (l := bytes)
    rw [hd, hb] at hsplit
    refine ⟨rfl, ?_⟩
    rw [AmlValue.payload, List.append_assoc, List.singleton_append]
    exact hsplit.symm

theorem payload_of_parseAmlInteger {width : AmlWidth} {bytes rest : List Byte}
    {value : AmlValue} (h : parseAmlInteger width bytes = some (value, rest)) :
    value.opcode = width.opcode ∧ bytes = value.payload ++ rest := by
  unfold parseAmlInteger at h
  split_ifs at h with hw
  simp only [Option.some.injEq, Prod.mk.injEq] at h
  obtain ⟨rfl, rfl⟩ := h
  have hlen : (bytes.take width.bytes).length = width.bytes := by simp [hw]
  have htake := toLittleEndian_littleEndian (bytes.take width.bytes)
  rw [hlen] at htake
  refine ⟨rfl, ?_⟩
  rw [AmlValue.payload, htake, List.take_append_drop]

def amlValueCode : PrefixCode AmlValue Byte where
  encode value := value.opcode :: value.payload
  parse := parseAmlValue
  parse_encode value rest := by
    cases value with
    | string chars h =>
      rw [AmlValue.payload, List.cons_append, List.append_assoc, List.singleton_append]
      exact parseAmlString_payload h rest
    | integer width value h =>
      simp [parseAmlValue, AmlValue.opcode, AmlValue.payload, width.opcode_ne_string,
        parseAmlInteger_payload width h]
  encode_parse {bs value rest} h := by
    cases bs with
    | nil => simp [parseAmlValue] at h
    | cons op bytes =>
      simp only [parseAmlValue] at h
      split_ifs at h with hop
      · obtain ⟨hv, hb⟩ := payload_of_parseAmlString h
        rw [hv, hop, hb, List.cons_append]
      · obtain ⟨width, hw, hp⟩ := Option.bind_eq_some_iff.mp h
        obtain ⟨hv, hb⟩ := payload_of_parseAmlInteger hp
        rw [hv, AmlWidth.opcode_of_ofOpcode hw, hb, List.cons_append]
  encode_ne_nil _ := List.cons_ne_nil _ _

structure AmlObject where
  name : NameSegment
  value : AmlValue
  deriving DecidableEq

def parseAmlObject : List Byte → Option (AmlObject × List Byte)
  | [] => none
  | op :: bytes =>
    if op = amlNameOp then
      if h : IsNameSegment (bytes.take 4) then
        (parseAmlValue (bytes.drop 4)).map (fun (value, rest) => (⟨⟨bytes.take 4, h⟩, value⟩, rest))
      else none
    else none

def amlObjectCode : PrefixCode AmlObject Byte where
  encode o := amlNameOp :: (o.name.bytes ++ amlValueCode.encode o.value)
  parse := parseAmlObject
  parse_encode o rest := by
    have hlen := o.name.length_bytes
    have hval : parseAmlValue (amlValueCode.encode o.value ++ rest) = some (o.value, rest) :=
      amlValueCode.parse_encode o.value rest
    simp only [List.cons_append, List.append_assoc, parseAmlObject, if_true,
      List.take_left' hlen, List.drop_left' hlen, dif_pos o.name.valid, hval, Option.map_some]
  encode_parse {bs o rest} h := by
    cases bs with
    | nil => simp [parseAmlObject] at h
    | cons op bytes =>
      simp only [parseAmlObject] at h
      split_ifs at h with hop hname
      obtain ⟨⟨value, rest'⟩, hval, ho⟩ := Option.map_eq_some_iff.mp h
      simp only [Prod.mk.injEq] at ho
      obtain ⟨rfl, rfl⟩ := ho
      have hrest := amlValueCode.encode_parse hval
      rw [hop, List.cons_append, List.append_assoc, ← hrest, List.take_append_drop]
  encode_ne_nil _ := List.cons_ne_nil _ _

end ProjectMu
