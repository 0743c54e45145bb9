import Mathlib.Tactic

/-!
# Text with numbers of a fixed width

A layout is literal text with places for numbers, each written with the same count of digits.
How long the text is does not depend on the numbers, and they are read back from where they
stand, whatever follows.
-/

namespace FixedText

variable {α : Type*} {b width : ℕ}

/-- How the digits of a base are written, and what they stand for. -/
structure Numerals (b : ℕ) (α : Type*) where
  digit : ℕ → α
  value : α → ℕ
  value_digit : ∀ d < b, value (digit d) = d

/-- The most significant digit first. -/
def Numerals.number (N : Numerals b α) (width n : ℕ) : List α :=
  ((Nat.digitsAppend b width n).map N.digit).reverse

def Numerals.numberValue (N : Numerals b α) (text : List α) : ℕ :=
  Nat.ofDigits b (text.reverse.map N.value)

inductive Field (α : Type*)
  | literal (text : List α)
  | number

abbrev Layout (α : Type*) := List (Field α)

def Layout.places : Layout α → ℕ
  | [] => 0
  | .literal _ :: layout => Layout.places layout
  | .number :: layout => Layout.places layout + 1

def Layout.size (width : ℕ) : Layout α → ℕ
  | [] => 0
  | .literal text :: layout => text.length + Layout.size width layout
  | .number :: layout => width + Layout.size width layout

section Fill

variable (N : Numerals b α) (width : ℕ)

def Layout.fill : Layout α → List ℕ → List α
  | [], _ => []
  | .literal text :: layout, ns => text ++ Layout.fill layout ns
  | .number :: layout, ns => N.number width (ns.headD 0) ++ Layout.fill layout ns.tail

def Layout.numbers : Layout α → List α → List ℕ
  | [], _ => []
  | .literal text :: layout, source => Layout.numbers layout (source.drop text.length)
  | .number :: layout, source =>
    N.numberValue (source.take width) :: Layout.numbers layout (source.drop width)

end Fill

@[simp] theorem places_append (a c : Layout α) :
    Layout.places (a ++ c) = Layout.places a + Layout.places c := by
  induction a with
  | nil => exact (Nat.zero_add _).symm
  | cons field a ih =>
    cases field with
    | literal text => exact ih
    | number =>
      change Layout.places (a ++ c) + 1 = Layout.places a + 1 + Layout.places c
      omega

variable {N : Numerals b α}

/-- Two texts one behind the other are one text. -/
theorem fill_append (a c : Layout α) {ns : List ℕ} (hns : ns.length = Layout.places a)
    (ms : List ℕ) :
    Layout.fill N width (a ++ c) (ns ++ ms) =
      Layout.fill N width a ns ++ Layout.fill N width c ms := by
  induction a generalizing ns with
  | nil =>
    rw [List.eq_nil_of_length_eq_zero hns]
    rfl
  | cons field a ih =>
    cases field with
    | literal text =>
      change text ++ Layout.fill N width (a ++ c) (ns ++ ms) = _
      rw [ih hns, Layout.fill, List.append_assoc]
    | number =>
      cases ns with
      | nil => cases hns
      | cons n ns =>
        change N.number width n ++ Layout.fill N width (a ++ c) (ns ++ ms) = _
        rw [ih (Nat.succ.inj hns), Layout.fill, List.append_assoc]
        rfl

end FixedText
