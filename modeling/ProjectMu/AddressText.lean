import ProjectMu.ByteCodec
import ProjectMu.DigitText

/-!
# Internet addresses as text

An address of four bytes is written as decimal numbers with dots in between, one of sixteen bytes
as hexadecimal groups with colons in between. The last two groups can be written as an address of
four bytes, and two colons in a row stand for groups of zeros. Numbers can have leading zeros.
-/

namespace ProjectMu.AddressText

open ByteCodec DigitText

abbrev dot : Byte := 0x2E
abbrev colon : Byte := 0x3A

def decimalDigit (c : Byte) : Option ℕ :=
  if 0x30 ≤ c ∧ c ≤ 0x39 then some (c.toNat - 0x30) else none

def hexDigit (c : Byte) : Option ℕ :=
  if 0x30 ≤ c ∧ c ≤ 0x39 then some (c.toNat - 0x30)
  else if 0x61 ≤ c ∧ c ≤ 0x66 then some (c.toNat - 0x61 + 10)
  else if 0x41 ≤ c ∧ c ≤ 0x46 then some (c.toNat - 0x41 + 10)
  else none

/-- A number of one byte. -/
def octet (text : List Byte) : Option ℕ := number decimalDigit 10 255 text

/-- A number of two bytes. -/
def group (text : List Byte) : Option ℕ := number hexDigit 16 65535 text

def groupBytes (w : ℕ) : List Byte := [BitVec.ofNat 8 (w / 256), BitVec.ofNat 8 w]

/-- The four bytes that a text stands for. -/
def dottedQuad (text : List Byte) : Option (List Byte) :=
  ((text.splitOn dot).mapM octet).bind fun q =>
    if q.length = 4 then some (q.map (BitVec.ofNat 8)) else none

/-- The bytes of hexadecimal groups. -/
def groups : List (List Byte) → Option (List Byte)
  | [] => some []
  | p :: ps => (group p).bind fun w => (groups ps).map (groupBytes w ++ ·)

/-- The bytes of groups of which the last one can be an address of four bytes. -/
def mixedGroups : List (List Byte) → Option (List Byte)
  | [] => some []
  | [p] => ((group p).map groupBytes).or (dottedQuad p)
  | p :: ps => (group p).bind fun w => (mixedGroups ps).map (groupBytes w ++ ·)

def joined (pieces : List (List Byte)) : List Byte := [colon].intercalate pieces

/-- Zeros between the groups in front of two colons and those behind. -/
def spread (front back : List Byte) : List Byte :=
  front ++ List.replicate (16 - front.length - back.length) 0 ++ back

/-- The texts of an address in the standard form. -/
inductive Denotes : List Byte → List Byte → Prop
  | full {ps address} (h : mixedGroups ps = some address) (hlength : address.length = 16) :
      Denotes (joined ps) address
  | short {fs bs front back} (hfront : groups fs = some front) (hback : mixedGroups bs = some back)
      (hroom : front.length + back.length < 16) :
      Denotes (joined fs ++ colon :: colon :: joined bs) (spread front back)

def decimalCharacter (d : ℕ) : Byte := BitVec.ofNat 8 (0x30 + d)

def hexCharacter (d : ℕ) : Byte :=
  if d < 10 then BitVec.ofNat 8 (0x30 + d) else BitVec.ofNat 8 (0x61 + (d - 10))

def octetText (b : Byte) : List Byte := numeral decimalCharacter 10 b.toNat

def quadText (q : List Byte) : List Byte := [dot].intercalate (q.map octetText)

def groupText (w : ℕ) : List Byte := numeral hexCharacter 16 w

def addressBytes (ws : List ℕ) : List Byte := ws.flatMap groupBytes

/-- The texts of the last groups of an address. -/
inductive LastGroups : List ℕ → List (List Byte) → Prop
  | plain (ws : List ℕ) : LastGroups ws (ws.map groupText)
  | quad (ws : List ℕ) (high low : ℕ) :
      LastGroups (ws ++ [high, low]) (ws.map groupText ++ [quadText (addressBytes [high, low])])

/-- The ways to write the groups of an address. -/
inductive Written : List ℕ → List Byte → Prop
  | full {ws ps} (h : LastGroups ws ps) : Written ws (joined ps)
  | short (fs : List ℕ) (zeros : ℕ) {bs ps} (h : LastGroups bs ps) :
      Written (fs ++ List.replicate (zeros + 1) 0 ++ bs)
        (joined (fs.map groupText) ++ colon :: colon :: joined ps)

section Writing

variable {q : List Byte} {w : ℕ} {ws : List ℕ}

theorem octet_octetText (b : Byte) : octet (octetText b) = some b.toNat := by
  have hb := b.isLt
  exact number_numeral (by decide) (by decide) (by omega)

theorem dot_notMem_octetText (b : Byte) : dot ∉ octetText b := by
  intro hmem
  obtain ⟨d, hd, heq⟩ := mem_numeral (by decide) hmem
  revert heq
  revert d
  decide

theorem mapM_octet (q : List Byte) : (q.map octetText).mapM octet = some (q.map BitVec.toNat) := by
  induction q with
  | nil => rfl
  | cons b q ih => simp [octet_octetText, ih]

/-- What is written for four bytes stands for them. -/
theorem dottedQuad_quadText (hq : q.length = 4) : dottedQuad (quadText q) = some q := by
  have hsplit : (quadText q).splitOn dot = q.map octetText := by
    apply List.splitOn_intercalate
    · intro piece hpiece
      obtain ⟨b, -, rfl⟩ := List.mem_map.mp hpiece
      exact dot_notMem_octetText b
    · rintro hnil
      rw [List.map_eq_nil_iff.mp hnil] at hq
      cases hq
  have hbytes : (q.map BitVec.toNat).map (BitVec.ofNat 8) = q := by
    rw [List.map_map]
    conv_rhs => rw [← List.map_id q]
    apply List.map_congr_left
    intro b _
    exact BitVec.ofNat_toNat 8 b
  rw [dottedQuad, hsplit, mapM_octet, Option.bind_some, List.length_map, if_pos hq, hbytes]

theorem group_groupText (hw : w ≤ 65535) : group (groupText w) = some w :=
  number_numeral (by decide) (by decide) hw

theorem groups_groupTexts (hws : ∀ w ∈ ws, w ≤ 65535) :
    groups (ws.map groupText) = some (addressBytes ws) := by
  induction ws with
  | nil => rfl
  | cons w ws ih =>
    rw [List.forall_mem_cons] at hws
    rw [List.map_cons, groups, group_groupText hws.1, ih hws.2]
    rfl

end Writing

end ProjectMu.AddressText
