import Mathlib.Tactic

/-!
# Positions in consecutive blocks

Blocks of different lengths follow each other. Every position lies in one of them, at one distance
from its start; walking over the blocks finds both.
-/

namespace BlockPosition

variable (len : ℕ → ℕ)

/-- Where a block starts. -/
def start : ℕ → ℕ
  | 0 => 0
  | n + 1 => start n + len n

variable {len} {m n r q : ℕ}

theorem end_le_start (h : m < n) : start len m + len m ≤ start len n := by
  induction n with
  | zero => exact absurd h (Nat.not_lt_zero m)
  | succ n ih =>
    rw [start]
    rcases Nat.lt_succ_iff_lt_or_eq.mp h with hlt | rfl
    · exact (ih hlt).trans (Nat.le_add_right _ _)
    · exact le_rfl

theorem start_le_start (h : m ≤ n) : start len m ≤ start len n := by
  rcases h.lt_or_eq with hlt | rfl
  · exact (Nat.le_add_right _ _).trans (end_le_start hlt)
  · exact le_rfl

/-- A position has one block and one distance. -/
theorem unique (hr : r < len m) (hq : q < len n) (h : start len m + r = start len n + q) :
    m = n ∧ r = q := by
  rcases Nat.lt_trichotomy m n with hlt | rfl | hgt
  · have hend := @end_le_start len _ _ hlt
    omega
  · exact ⟨rfl, Nat.add_left_cancel h⟩
  · have hend := @end_le_start len _ _ hgt
    omega

/-- What is left of a position behind the blocks in front of it. -/
theorem exists_position (hpos : ∀ i, 0 < len i) (x : ℕ) :
    ∃ n r, start len n + r = x ∧ r < len n := by
  induction x with
  | zero => exact ⟨0, 0, rfl, hpos 0⟩
  | succ x ih =>
    obtain ⟨n, r, rfl, hr⟩ := ih
    by_cases hlast : r + 1 < len n
    · exact ⟨n, r + 1, rfl, hlast⟩
    · refine ⟨n + 1, 0, ?_, hpos _⟩
      rw [start]
      omega

/-- Blocks that are long have far starts. -/
theorem mul_le_start {k : ℕ} (h : ∀ i, k ≤ len i) (n : ℕ) : n * k ≤ start len n := by
  induction n with
  | zero => exact (Nat.zero_mul k).le
  | succ n ih =>
    rw [start, Nat.succ_mul]
    exact Nat.add_le_add ih (h n)

theorem start_le_mul {k : ℕ} (h : ∀ i, len i ≤ k) (n : ℕ) : start len n ≤ n * k := by
  induction n with
  | zero => exact Nat.zero_le _
  | succ n ih =>
    rw [start, Nat.succ_mul]
    exact Nat.add_le_add ih (h n)

end BlockPosition
