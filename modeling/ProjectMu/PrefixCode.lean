import Mathlib.Tactic

/-!
# Sequences of self-delimiting codes

A `PrefixCode` writes a value as a nonempty string that a parser recovers in front of
any rest. A sequence is written by concatenation, and `parseAll` reads it back: it
accepts exactly the concatenations and returns their parts.
-/

structure PrefixCode (α β : Type*) where
  encode : α → List β
  parse : List β → Option (α × List β)
  parse_encode : ∀ a rest, parse (encode a ++ rest) = some (a, rest)
  encode_parse : ∀ {bs a rest}, parse bs = some (a, rest) → bs = encode a ++ rest
  encode_ne_nil : ∀ a, encode a ≠ []

namespace PrefixCode

variable {α β : Type*} (c : PrefixCode α β)

def encodeAll (l : List α) : List β := l.flatMap c.encode

@[simp] theorem encodeAll_nil : c.encodeAll [] = [] := rfl

@[simp] theorem encodeAll_cons (a : α) (l : List α) :
    c.encodeAll (a :: l) = c.encode a ++ c.encodeAll l := rfl

@[simp] theorem encodeAll_append (l m : List α) :
    c.encodeAll (l ++ m) = c.encodeAll l ++ c.encodeAll m := List.flatMap_append

/-- At most `n` values, with nothing behind the last of them. -/
def parseUpTo : ℕ → List β → Option (List α)
  | _, [] => some []
  | 0, _ :: _ => none
  | n + 1, b :: bs =>
    match c.parse (b :: bs) with
    | none => none
    | some (a, rest) => (parseUpTo n rest).map (a :: ·)

def parseAll (bs : List β) : Option (List α) := c.parseUpTo bs.length bs

theorem encodeAll_of_parseUpTo {n : ℕ} {bs : List β} {l : List α}
    (h : c.parseUpTo n bs = some l) : bs = c.encodeAll l := by
  induction n generalizing bs l with
  | zero =>
    cases bs with
    | nil =>
      obtain rfl : [] = l := by simpa [parseUpTo] using h
      rfl
    | cons b bs => simp [parseUpTo] at h
  | succ n ih =>
    cases bs with
    | nil =>
      obtain rfl : [] = l := by simpa [parseUpTo] using h
      rfl
    | cons b bs =>
      cases hp : c.parse (b :: bs) with
      | none => simp [parseUpTo, hp] at h
      | some p =>
        obtain ⟨a, rest⟩ := p
        simp only [parseUpTo, hp, Option.map_eq_some_iff] at h
        obtain ⟨l', hl', rfl⟩ := h
        rw [c.encode_parse hp, encodeAll_cons, ih hl']

theorem parseUpTo_encodeAll {n : ℕ} (l : List α) (hn : (c.encodeAll l).length ≤ n) :
    c.parseUpTo n (c.encodeAll l) = some l := by
  induction l generalizing n with
  | nil => cases n <;> rfl
  | cons a l ih =>
    have hne := c.encode_ne_nil a
    have hp := c.parse_encode a (c.encodeAll l)
    rw [encodeAll_cons] at hn ⊢
    cases he : c.encode a with
    | nil => exact absurd he hne
    | cons b bs =>
      rw [he, List.cons_append] at hp hn
      cases n with
      | zero => simp at hn
      | succ n =>
        have hl : (c.encodeAll l).length ≤ n := by
          simp only [List.length_cons, List.length_append] at hn
          omega
        rw [List.cons_append]
        simp [parseUpTo, hp, ih hl]

/-- The parser accepts the concatenations and nothing else. -/
theorem parseAll_eq_some_iff {bs : List β} {l : List α} :
    c.parseAll bs = some l ↔ bs = c.encodeAll l := by
  constructor
  · exact c.encodeAll_of_parseUpTo
  · intro h
    subst h
    exact c.parseUpTo_encodeAll l le_rfl

end PrefixCode
