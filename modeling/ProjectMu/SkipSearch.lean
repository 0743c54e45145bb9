import Mathlib.Tactic

/-!
# Searches that skip

A search for the first index that fits may jump over indices as long as none of them fits. How
far it jumps does not show in the result.
-/

namespace SkipSearch

/-- Go on while the condition holds, at most `n` steps. -/
def skipWhile (p : ℕ → Bool) : ℕ → ℕ → ℕ
  | 0, i => i
  | n + 1, i => if p i then skipWhile p n (i + 1) else i

/-- Look below the limit. Behind an index that does not fit, the search goes on at `next`. -/
def skipSearch (fits : ℕ → Bool) (next : ℕ → ℕ) (limit : ℕ) : ℕ → ℕ → Option ℕ
  | 0, _ => none
  | n + 1, i =>
    if i < limit then if fits i then some i else skipSearch fits next limit n (next i) else none

/-- The least index from `start` on and below the limit that fits, if there is one. -/
def FirstFit (fits : ℕ → Bool) (start limit : ℕ) : Option ℕ → Prop
  | none => ∀ i, start ≤ i → i < limit → fits i = false
  | some i => start ≤ i ∧ i < limit ∧ fits i = true ∧ ∀ j, start ≤ j → j < i → fits j = false

variable {p fits : ℕ → Bool} {next : ℕ → ℕ} {limit n start i j : ℕ}

theorem le_skipWhile (p : ℕ → Bool) (n i : ℕ) : i ≤ skipWhile p n i := by
  induction n generalizing i with
  | zero => exact le_rfl
  | succ n ih =>
    rw [skipWhile]
    split_ifs
    · exact (Nat.le_succ i).trans (ih (i + 1))
    · exact le_rfl

theorem skipWhile_le (p : ℕ → Bool) (n i : ℕ) : skipWhile p n i ≤ i + n := by
  induction n generalizing i with
  | zero => exact le_rfl
  | succ n ih =>
    rw [skipWhile]
    split_ifs
    · exact (ih (i + 1)).trans (by omega)
    · omega

theorem lt_skipWhile (hn : 0 < n) (hp : p i = true) : i < skipWhile p n i := by
  obtain ⟨m, rfl⟩ := Nat.exists_eq_succ_of_ne_zero hn.ne'
  rw [skipWhile, if_pos hp]
  exact le_skipWhile p m (i + 1)

/-- All that is skipped has the condition. -/
theorem skipWhile_skipped (hij : i ≤ j) (hj : j < skipWhile p n i) : p j = true := by
  induction n generalizing i with
  | zero => exact absurd hj (by rw [skipWhile]; omega)
  | succ n ih =>
    rw [skipWhile] at hj
    split_ifs at hj with hp
    · rcases Nat.eq_or_lt_of_le hij with rfl | hlt
      · exact hp
      · exact ih hlt hj
    · omega

/-- A loop that ends early ends where the condition does not hold. -/
theorem skipWhile_end (h : skipWhile p n i < i + n) : p (skipWhile p n i) = false := by
  induction n generalizing i with
  | zero => exact absurd h (Nat.lt_irrefl i)
  | succ n ih =>
    rw [skipWhile] at h ⊢
    split_ifs at h ⊢ with hp
    · exact ih (by omega)
    · exact Bool.not_eq_true _ ▸ hp

/-- The loop ends at an index if the condition holds up to there and not at it. -/
theorem skipWhile_eq (hij : i ≤ j) (hj : j ≤ i + n) (hp : ∀ k, i ≤ k → k < j → p k = true)
    (hend : j < i + n → p j = false) : skipWhile p n i = j := by
  induction n generalizing i with
  | zero => exact Nat.le_antisymm hij hj
  | succ n ih =>
    rw [skipWhile]
    rcases Nat.eq_or_lt_of_le hij with rfl | hlt
    · rw [hend (by omega), if_neg Bool.false_ne_true]
    · rw [if_pos (hp i le_rfl hlt)]
      exact ih hlt (by omega) (fun k hk => hp k (by omega)) (fun h => hend (by omega))

theorem FirstFit.of_skip {result : Option ℕ} (h : FirstFit fits j limit result)
    (hij : i ≤ j) (hskip : ∀ k, i ≤ k → k < j → k < limit → fits k = false) :
    FirstFit fits i limit result := by
  cases result with
  | none =>
    intro k hk hlimit
    by_cases hkj : k < j
    · exact hskip k hk hkj hlimit
    · exact h k (by omega) hlimit
  | some r =>
    obtain ⟨hstart, hlimit, hfits, hfirst⟩ := h
    refine ⟨by omega, hlimit, hfits, fun k hk hkr => ?_⟩
    by_cases hkj : k < j
    · exact hskip k hk hkj (by omega)
    · exact hfirst k (by omega) hkr

/-- The search finds the first index that fits if it never jumps over one. -/
theorem skipSearch_firstFit
    (hnext : ∀ i < limit, fits i = false →
      i < next i ∧ ∀ j, i ≤ j → j < next i → j < limit → fits j = false)
    (hfuel : limit ≤ start + n) :
    FirstFit fits start limit (skipSearch fits next limit n start) := by
  induction n generalizing start with
  | zero =>
    intro i hstart hlimit
    omega
  | succ n ih =>
    rw [skipSearch]
    split_ifs with hlimit hfits
    · exact ⟨le_rfl, hlimit, hfits, fun j hj hlt => by omega⟩
    · obtain ⟨hlt, hskip⟩ := hnext start hlimit (Bool.not_eq_true _ ▸ hfits)
      exact (ih (by omega)).of_skip hlt.le hskip
    · intro i hstart hi
      omega

/-- Below a smaller limit the first fit is the same one, if it lies there. -/
theorem FirstFit.below {result : Option ℕ} {limit' : ℕ} (h : FirstFit fits start limit result)
    (hlimit : limit' ≤ limit) :
    FirstFit fits start limit' (result.filter fun i => decide (i < limit')) := by
  cases result with
  | none => exact fun i hstart hi => h i hstart (hi.trans_le hlimit)
  | some r =>
    obtain ⟨hstart, -, hfits, hfirst⟩ := h
    rw [Option.filter_some]
    by_cases hr : r < limit'
    · rw [if_pos (decide_eq_true hr)]
      exact ⟨hstart, hr, hfits, hfirst⟩
    · rw [if_neg (by rwa [decide_eq_true_eq])]
      exact fun i hi hlt => hfirst i hi (by omega)

/-- A search through all indices of the range finds the first fit. -/
theorem firstFit_find? (fits : ℕ → Bool) (start limit : ℕ) :
    FirstFit fits start limit ((List.range' start (limit - start)).find? fits) := by
  cases hfound : (List.range' start (limit - start)).find? fits with
  | none =>
    intro i hstart hi
    exact Bool.eq_false_iff.mpr (List.find?_eq_none.mp hfound i
      (List.mem_range'_1.mpr ⟨hstart, by omega⟩))
  | some r =>
    obtain ⟨hfits, hmem, hfirst⟩ := List.find?_range'_eq_some.mp hfound
    obtain ⟨hstart, hlt⟩ := List.mem_range'_1.mp hmem
    refine ⟨hstart, by omega, hfits, fun j hj hjr => ?_⟩
    simpa using hfirst j hj hjr

/-- The first fit is what a search through all indices of the range finds. -/
theorem FirstFit.eq_find? {result : Option ℕ} (h : FirstFit fits start limit result) :
    result = (List.range' start (limit - start)).find? fits := by
  cases result with
  | none =>
    symm
    rw [List.find?_eq_none]
    intro i hi
    obtain ⟨hstart, hlimit⟩ := List.mem_range'_1.mp hi
    rw [h i hstart (by omega)]
    exact Bool.false_ne_true
  | some r =>
    obtain ⟨hstart, hlimit, hfits, hfirst⟩ := h
    symm
    rw [List.find?_range'_eq_some]
    refine ⟨hfits, List.mem_range'_1.mpr ⟨hstart, by omega⟩, fun j hj hjr => ?_⟩
    rw [hfirst j hj hjr, Bool.not_false]

end SkipSearch
