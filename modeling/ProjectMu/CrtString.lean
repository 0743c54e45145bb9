import ProjectMu.DebugOutput

/-!
# The C string functions

A string is the bytes from an address on, up to the first zero. The spans look a character up in a
table of 256 bits, with a bit for each one of the set; `strpbrk` compares with one after the other.
Characters are unsigned.
-/

namespace ProjectMu.CrtWrapper

open ByteCodec

/-- The characters in front of the terminating zero. -/
def cText (str : List Byte) : List Byte := str.takeWhile (· ≠ 0)

theorem zero_notMem_cText (str : List Byte) : 0 ∉ cText str := by
  intro h
  simpa using List.mem_takeWhile_imp h

/-- Where the character is found first. The terminating zero is searched as well. -/
def strchr (str : List Byte) (ch : Byte) : Option ℕ := (cText str ++ [0]).idxOf? ch

section Spans

def bitOf (c : Byte) : Byte := 1 <<< (c &&& 7).toNat

def mapByte (map : List Byte) (c : Byte) : Byte := map.getD (c >>> 3).toNat 0

def addToMap (map : List Byte) (c : Byte) : List Byte :=
  map.set (c >>> 3).toNat (mapByte map c ||| bitOf c)

def isInMap (map : List Byte) (c : Byte) : Bool := mapByte map c &&& bitOf c ≠ 0

def charMap (s2 : List Byte) : List Byte := (cText s2).foldl addToMap (List.replicate 32 0)

/-- The loop of `strspn`. -/
def spanLoop (map : List Byte) : List Byte → ℕ
  | [] => 0
  | c :: s1 => if isInMap map c then spanLoop map s1 + 1 else 0

def strspn (s1 s2 : List Byte) : ℕ :=
  if s1.headD 0 ≠ 0 then spanLoop (charMap s2) s1 else 0

/-- The loop of `strcspn`. -/
def cspanLoop (map : List Byte) : List Byte → ℕ
  | [] => 0
  | c :: s1 => if isInMap map c then 0 else cspanLoop map s1 + 1

/-- The terminating zero ends the loop, as its bit is set. -/
def strcspn (s1 s2 : List Byte) : ℕ :=
  let map := charMap s2
  cspanLoop (map.set 0 (map.getD 0 0 ||| 1)) s1

/-- Where `s` points to in the end. -/
def strpbrk (accept : List Byte) : List Byte → Option ℕ
  | [] => none
  | c :: s =>
    if c = 0 then none
    else if (cText accept).any (c == ·) then some 0
    else (strpbrk accept s).map (· + 1)

variable {map : List Byte} {c d : Byte} {s1 s2 : List Byte}

theorem bit_lt (c : Byte) : (c &&& 7).toNat < 8 := by
  rw [BitVec.toNat_and]
  exact Nat.lt_succ_of_le Nat.and_le_right

theorem bitOf_eq (c : Byte) : bitOf c = BitVec.twoPow 8 (c &&& 7).toNat :=
  (BitVec.twoPow_eq 8 _).symm

theorem getLsbD_bitOf (c : Byte) (k : ℕ) :
    (bitOf c).getLsbD k = decide (k = (c &&& 7).toNat) := by
  rw [bitOf_eq, BitVec.getLsbD_twoPow, decide_eq_true (bit_lt c), Bool.true_and]
  exact decide_eq_decide.mpr eq_comm

theorem isInMap_eq (map : List Byte) (c : Byte) :
    isInMap map c = (mapByte map c).getLsbD (c &&& 7).toNat := by
  have hbit : (bitOf c).getLsbD (c &&& 7).toNat = true := by
    rw [getLsbD_bitOf, decide_eq_true rfl]
  unfold isInMap
  rw [bitOf_eq, BitVec.and_twoPow, ← bitOf_eq]
  split_ifs with hset
  · rw [hset, decide_eq_true_iff]
    intro hzero
    rw [hzero] at hbit
    cases hbit.symm.trans BitVec.getLsbD_zero
  · rw [Bool.not_eq_true] at hset
    rw [hset]
    exact decide_eq_false (not_not.mpr rfl)

/-- A character is its place in the table and its bit there. -/
theorem eq_iff_place (c d : Byte) : c = d ↔ (c >>> 3).toNat = (d >>> 3).toNat ∧
    (c &&& 7).toNat = (d &&& 7).toNat := by
  have hsplit (c : Byte) : c.toNat = (c >>> 3).toNat * 8 + (c &&& 7).toNat := by
    revert c
    decide +kernel
  constructor
  · rintro rfl
    exact ⟨rfl, rfl⟩
  · rintro ⟨hbyte, hbit⟩
    apply BitVec.eq_of_toNat_eq
    rw [hsplit c, hsplit d, hbyte, hbit]

theorem place_lt (c : Byte) : (c >>> 3).toNat < 32 := by
  have hc := c.isLt
  rw [BitVec.toNat_ushiftRight, Nat.shiftRight_eq_div_pow]
  omega

theorem isInMap_addToMap (hmap : map.length = 32) :
    isInMap (addToMap map c) d = (decide (c = d) || isInMap map d) := by
  rw [isInMap_eq, isInMap_eq, Bool.eq_iff_iff, Bool.or_eq_true, decide_eq_true_iff, eq_iff_place c d]
  by_cases hplace : (c >>> 3).toNat = (d >>> 3).toNat
  · have hbyte : mapByte (addToMap map c) d = mapByte map d ||| bitOf c := by
      have hin : (d >>> 3).toNat < map.length := hmap ▸ place_lt d
      unfold addToMap mapByte
      rw [hplace, List.getD_eq_getElem?_getD, List.getElem?_set_self hin, Option.getD_some]
    rw [hbyte, BitVec.getLsbD_or, Bool.or_eq_true, getLsbD_bitOf, decide_eq_true_iff]
    constructor
    · rintro (h | h)
      · exact Or.inr h
      · exact Or.inl ⟨hplace, h.symm⟩
    · rintro (⟨-, h⟩ | h)
      · exact Or.inr h.symm
      · exact Or.inl h
  · have hbyte : mapByte (addToMap map c) d = mapByte map d := by
      unfold addToMap mapByte
      rw [List.getD_eq_getElem?_getD, List.getElem?_set_ne hplace, ← List.getD_eq_getElem?_getD]
    rw [hbyte]
    exact (or_iff_right fun h => hplace h.1).symm

/-- The table has the bits of the characters of the set. -/
theorem isInMap_foldl (hmap : map.length = 32) (set : List Byte) :
    isInMap (set.foldl addToMap map) d = (set.contains d || isInMap map d) := by
  induction set generalizing map with
  | nil => rfl
  | cons c set ih =>
    rw [List.foldl_cons, ih (by rw [addToMap, List.length_set, hmap]), isInMap_addToMap hmap,
      List.contains_cons, ← Bool.or_assoc, Bool.or_comm (set.contains d)]
    congr 2
    exact Bool.eq_iff_iff.mpr (by rw [decide_eq_true_iff, beq_iff_eq, eq_comm])

theorem isInMap_charMap (s2 : List Byte) (d : Byte) :
    isInMap (charMap s2) d = (cText s2).contains d := by
  have hempty : isInMap (List.replicate 32 0) d = false := by
    revert d
    decide +kernel
  rw [charMap, isInMap_foldl (by decide), hempty, Bool.or_false]

theorem length_charMap (s2 : List Byte) : (charMap s2).length = 32 := by
  have hlength (set map : List Byte) : (set.foldl addToMap map).length = map.length := by
    induction set generalizing map with
    | nil => rfl
    | cons c set ih => rw [List.foldl_cons, ih, addToMap, List.length_set]
  rw [charMap, hlength, List.length_replicate]

theorem cText_cons (h : c ≠ 0) : cText (c :: s1) = c :: cText s1 :=
  List.takeWhile_cons_of_pos (decide_eq_true h)

theorem cText_zero : cText (0 :: s1) = [] := List.takeWhile_cons_of_neg (by simp)

theorem contains_zero (s2 : List Byte) : (cText s2).contains 0 = false := by
  rw [List.contains_eq_mem]
  exact decide_eq_false (zero_notMem_cText s2)

theorem spanLoop_eq (s1 s2 : List Byte) : spanLoop (charMap s2) s1 =
    ((cText s1).takeWhile fun c => (cText s2).contains c).length := by
  induction s1 with
  | nil => rfl
  | cons c s1 ih =>
    rw [spanLoop, isInMap_charMap]
    by_cases hc : c = 0
    · subst hc
      rw [contains_zero, cText_zero]
      rfl
    · rw [cText_cons hc, List.takeWhile_cons]
      split_ifs
      · rw [ih, List.length_cons]
      · rfl

theorem cspanLoop_eq (s1 s2 : List Byte) : cspanLoop (addToMap (charMap s2) 0) s1 =
    ((cText s1).takeWhile fun c => !(cText s2).contains c).length := by
  induction s1 with
  | nil => rfl
  | cons c s1 ih =>
    rw [cspanLoop, isInMap_addToMap (length_charMap s2), isInMap_charMap]
    by_cases hc : c = 0
    · subst hc
      rw [cText_zero]
      rfl
    · rw [cText_cons hc, List.takeWhile_cons, decide_eq_false (Ne.symm hc), Bool.false_or]
      cases (cText s2).contains c with
      | true => rfl
      | false => exact congrArg (· + 1) ih

theorem strpbrk_eq (accept s : List Byte) : strpbrk accept s =
    let n := ((cText s).takeWhile fun c => !(cText accept).contains c).length
    if n < (cText s).length then some n else none := by
  induction s with
  | nil => rfl
  | cons c s ih =>
    rw [strpbrk]
    by_cases hc : c = 0
    · subst hc
      rw [if_pos rfl, cText_zero]
      rfl
    · rw [if_neg hc, cText_cons hc, ← List.contains_eq_any_beq, List.takeWhile_cons, ih]
      cases (cText accept).contains c with
      | true => rfl
      | false =>
        simp only [Bool.not_false, Bool.false_eq_true, if_true, if_false, List.length_cons,
          Nat.add_lt_add_iff_right]
        split_ifs <;> rfl

/-- The spans count the leading characters that are in the set, or not in it, and `strpbrk` finds
the first one behind the second span, if the string does not end there. -/
theorem spans_eq (s set : List Byte) :
    strspn s set = ((cText s).takeWhile fun c => (cText set).contains c).length ∧
    strcspn s set = ((cText s).takeWhile fun c => !(cText set).contains c).length ∧
    strpbrk set s = if strcspn s set < (cText s).length then some (strcspn s set) else none := by
  have hcspan : strcspn s set =
      ((cText s).takeWhile fun c => !(cText set).contains c).length := cspanLoop_eq s set
  refine ⟨?_, hcspan, ?_⟩
  · unfold strspn
    split_ifs with hfirst
    · exact spanLoop_eq s set
    · cases s with
      | nil => rfl
      | cons c s =>
        obtain rfl := not_not.mp hfirst
        rw [cText_zero]
        rfl
  · rw [hcspan, strpbrk_eq]

end Spans

end ProjectMu.CrtWrapper
