import Mathlib.Algebra.Order.BigOperators.Ring.List
import Mathlib.Data.List.Forall2
import Mathlib.Tactic

/-!
# Numbers in mixed radices

`digits` divides a number by the products of its radices, highest place first; the leading digit
is unbounded. The lists of digits are ordered as the numbers are.
-/

namespace MixedRadix

variable {radices : List ℕ} {m n : ℕ}

def digits : List ℕ → ℕ → List ℕ
  | [], n => [n]
  | r :: radices, n => n / (r :: radices).prod :: digits radices (n % (r :: radices).prod)

theorem lt_iff_div_mod (w m n : ℕ) :
    m < n ↔ m / w < n / w ∨ m / w = n / w ∧ m % w < n % w := by
  constructor
  · intro h
    rcases (Nat.div_le_div_right h.le : m / w ≤ n / w).lt_or_eq with hlt | heq
    · exact .inl hlt
    · refine .inr ⟨heq, ?_⟩
      rw [← Nat.div_add_mod m w, ← Nat.div_add_mod n w, heq] at h
      exact Nat.lt_of_add_lt_add_left h
  · rintro (hlt | ⟨heq, hlt⟩)
    · exact Nat.lt_of_div_lt_div hlt
    · rw [← Nat.div_add_mod m w, ← Nat.div_add_mod n w, heq]
      exact Nat.add_lt_add_left hlt _

theorem digits_lt_digits : digits radices m < digits radices n ↔ m < n := by
  induction radices generalizing m n with
  | nil => simp [digits, List.cons_lt_cons_iff]
  | cons r radices ih =>
    rw [digits, digits, List.cons_lt_cons_iff, ih]
    exact (lt_iff_div_mod _ m n).symm

theorem digits_eq_cons (radices : List ℕ) (n : ℕ) :
    digits radices n = n / radices.prod :: (digits radices n).tail := by
  cases radices with
  | nil => rw [digits, List.prod_nil, Nat.div_one, List.tail_cons]
  | cons r radices => rfl

/-- The digits behind the leading one are below their radices. -/
theorem tail_digits_lt (h : ∀ r ∈ radices, 0 < r) (n : ℕ) :
    List.Forall₂ (· < ·) (digits radices n).tail radices := by
  induction radices generalizing n with
  | nil => exact .nil
  | cons r radices ih =>
    have hrest : ∀ r ∈ radices, 0 < r := fun r hr => h r (List.mem_cons_of_mem _ hr)
    rw [digits, List.tail_cons, digits_eq_cons]
    refine .cons ?_ (ih hrest _)
    have hpos : 0 < (r :: radices).prod := List.prod_pos h
    have hlt := Nat.mod_lt n hpos
    rw [List.prod_cons] at hlt ⊢
    exact Nat.div_lt_of_lt_mul (hlt.trans_eq (Nat.mul_comm _ _))

/-- A leading digit that wraps around is that of a number that wraps around. -/
theorem digits_mod (radices : List ℕ) (k n : ℕ) :
    digits radices (n % (k * radices.prod)) =
      n / radices.prod % k :: (digits radices n).tail := by
  cases radices with
  | nil => rw [digits, digits, List.prod_nil, Nat.div_one, Nat.mul_one, List.tail_cons]
  | cons r radices =>
    rw [digits, digits, Nat.mod_mul_left_div_self, Nat.mod_mul_left_mod, List.tail_cons]

/-- A place behind the last one. -/
theorem digits_append (radices : List ℕ) {r : ℕ} (hr : 0 < r) (n : ℕ) :
    digits (radices ++ [r]) (n * r) = digits radices n ++ [0] := by
  induction radices generalizing n with
  | nil => simp [digits, Nat.mul_div_cancel n hr]
  | cons s radices ih =>
    have hprod : (s :: (radices ++ [r])).prod = (s :: radices).prod * r := by
      rw [← List.cons_append, List.prod_append, List.prod_singleton]
    rw [List.cons_append, digits, hprod, Nat.mul_div_mul_right _ _ hr, Nat.mul_mod_mul_right, ih,
      digits, List.cons_append]

end MixedRadix
