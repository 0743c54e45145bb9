import Mathlib.Tactic

/-!
# Searching for a pattern with restarts

`restartSearch` reads a text once, one letter after the other. A letter that the next token of
the pattern does not accept ends an attempt, and the next attempt starts behind this letter. So
an occurrence is found only where an attempt starts.
-/

namespace RestartSearch

variable {τ α : Type*} {accepts : τ → α → Bool} {tokens rest : List τ} {text : ℕ → α}
  {length i j k n s : ℕ}

def MatchesAt (accepts : τ → α → Bool) (text : ℕ → α) : List τ → ℕ → Prop
  | [], _ => True
  | t :: rest, i => accepts t (text i) ∧ MatchesAt accepts text rest (i + 1)

/-- The pattern matches inside the first letters of the text. -/
def Occurs (accepts : τ → α → Bool) (tokens : List τ) (text : ℕ → α) (length i : ℕ) : Prop :=
  i + tokens.length ≤ length ∧ MatchesAt accepts text tokens i

/-- How many tokens from the first one on are accepted. -/
def matchedLength (accepts : τ → α → Bool) (text : ℕ → α) : List τ → ℕ → ℕ
  | [], _ => 0
  | t :: rest, i => if accepts t (text i) then matchedLength accepts text rest (i + 1) + 1 else 0

/-- An attempt starts behind the letter that ends the attempt before. -/
def attemptStart (accepts : τ → α → Bool) (tokens : List τ) (text : ℕ → α) : ℕ → ℕ
  | 0 => 0
  | k + 1 => attemptStart accepts tokens text k +
      matchedLength accepts text tokens (attemptStart accepts tokens text k) + 1

/-- The search with the tokens that the attempt has still to match. -/
def restartSearch (accepts : τ → α → Bool) (tokens : List τ) (text : ℕ → α) :
    ℕ → List τ → ℕ → ℕ → Option ℕ
  | 0, _, _, _ => none
  | _ + 1, [], start, _ => some start
  | n + 1, t :: rest, start, current =>
    if accepts t (text current) then
      if rest = [] then some start
      else restartSearch accepts tokens text n rest start (current + 1)
    else restartSearch accepts tokens text n tokens (current + 1) (current + 1)

theorem matchedLength_eq_length_iff :
    matchedLength accepts text tokens i = tokens.length ↔ MatchesAt accepts text tokens i := by
  induction tokens generalizing i with
  | nil => exact iff_of_true rfl trivial
  | cons t rest ih =>
    rw [matchedLength, MatchesAt, List.length_cons, ← ih]
    split
    next h => rw [Nat.add_right_cancel_iff, and_iff_right h]
    next h => exact iff_of_false (by omega) (fun hmatch => h hmatch.1)

/-- The tokens of an attempt up to some place, and the length of what it matches from there. -/
theorem matchedLength_append {first : List τ} (h : MatchesAt accepts text first i) :
    matchedLength accepts text (first ++ rest) i =
      first.length + matchedLength accepts text rest (i + first.length) := by
  induction first generalizing i with
  | nil => rw [List.nil_append, List.length_nil, Nat.zero_add, Nat.add_zero]
  | cons t first ih =>
    rw [List.cons_append, matchedLength, if_pos h.1, ih h.2, List.length_cons,
      Nat.add_right_comm i, Nat.add_assoc i]
    omega

theorem MatchesAt.append {first : List τ} (hfirst : MatchesAt accepts text first i)
    (hrest : MatchesAt accepts text rest (i + first.length)) :
    MatchesAt accepts text (first ++ rest) i := by
  induction first generalizing i with
  | nil => exact hrest
  | cons t first ih =>
    refine ⟨hfirst.1, ih hfirst.2 ?_⟩
    rw [List.length_cons, ← Nat.add_assoc, Nat.add_right_comm] at hrest
    exact hrest

theorem attemptStart_strictMono : StrictMono (attemptStart accepts tokens text) := by
  apply strictMono_nat_of_lt_succ
  intro k
  rw [attemptStart]
  omega

/-- The attempt that runs is the `k`-th one; the tokens before the rest are matched, and no
attempt before has found an occurrence. -/
structure Attempt (accepts : τ → α → Bool) (tokens : List τ) (text : ℕ → α) (length k : ℕ)
    (first rest : List τ) : Prop where
  tokens_eq : tokens = first ++ rest
  matched : MatchesAt accepts text first (attemptStart accepts tokens text k)
  missed : ∀ i < k, ¬Occurs accepts tokens text length (attemptStart accepts tokens text i)

namespace Attempt

variable {first : List τ} {t : τ}

theorem start (htokens : tokens = rest) : Attempt accepts tokens text length 0 [] rest :=
  ⟨htokens, trivial, fun _ hi => absurd hi (Nat.not_lt_zero _)⟩

/-- An accepted letter. -/
theorem step (h : Attempt accepts tokens text length k first (t :: rest))
    (haccepts : accepts t (text (attemptStart accepts tokens text k + first.length))) :
    Attempt accepts tokens text length k (first ++ [t]) rest where
  tokens_eq := by rw [h.tokens_eq, List.append_assoc, List.singleton_append]
  matched := h.matched.append ⟨haccepts, trivial⟩
  missed := h.missed

/-- A refused letter: the next attempt starts behind it. -/
theorem attemptStart_succ (h : Attempt accepts tokens text length k first (t :: rest))
    (hrefused : ¬accepts t (text (attemptStart accepts tokens text k + first.length))) :
    attemptStart accepts tokens text (k + 1) =
      attemptStart accepts tokens text k + first.length + 1 := by
  have hmatched : matchedLength accepts text tokens (attemptStart accepts tokens text k) =
      first.length := by
    have happend := @matchedLength_append _ _ _ (t :: rest) _ _ _ h.matched
    rw [← h.tokens_eq, matchedLength, if_neg hrefused] at happend
    exact happend
  rw [attemptStart, hmatched]

theorem restart (h : Attempt accepts tokens text length k first (t :: rest))
    (hrefused : ¬accepts t (text (attemptStart accepts tokens text k + first.length))) :
    Attempt accepts tokens text length (k + 1) [] tokens where
  tokens_eq := rfl
  matched := trivial
  missed := by
    intro i hi
    rcases Nat.lt_succ_iff_lt_or_eq.1 hi with hlt | rfl
    · exact h.missed i hlt
    · intro hoccurs
      have hall := matchedLength_eq_length_iff.2 hoccurs.2
      have hsucc := h.attemptStart_succ hrefused
      have hlength := congrArg List.length h.tokens_eq
      rw [attemptStart, hall] at hsucc
      rw [List.length_append, List.length_cons] at hlength
      omega

end Attempt

/-- The first attempt that is an occurrence, or none where no attempt is one. -/
def FirstHit (accepts : τ → α → Bool) (tokens : List τ) (text : ℕ → α) (length : ℕ) :
    Option ℕ → Prop
  | some s => ∃ k, s = attemptStart accepts tokens text k ∧
      Occurs accepts tokens text length s ∧
      ∀ i < k, ¬Occurs accepts tokens text length (attemptStart accepts tokens text i)
  | none => ∀ i, ¬Occurs accepts tokens text length (attemptStart accepts tokens text i)

theorem firstHit_restartSearch {first : List τ}
    (h : Attempt accepts tokens text length k first rest) (hrest : rest ≠ [])
    (hn : attemptStart accepts tokens text k + first.length + n = length) :
    FirstHit accepts tokens text length (restartSearch accepts tokens text n rest
      (attemptStart accepts tokens text k)
      (attemptStart accepts tokens text k + first.length)) := by
  induction n generalizing k first rest with
  | zero =>
    intro i hoccurs
    have hpos := List.length_pos_iff.2 hrest
    have hlength := congrArg List.length h.tokens_eq
    rw [List.length_append] at hlength
    rcases lt_or_ge i k with hi | hi
    · exact h.missed i hi hoccurs
    · -- a later attempt has less room than this one
      have hle : attemptStart accepts tokens text k ≤ attemptStart accepts tokens text i :=
        attemptStart_strictMono.monotone hi
      have hfits := hoccurs.1
      omega
  | succ n ih =>
    cases rest with
    | nil => exact absurd rfl hrest
    | cons t rest =>
      rw [restartSearch]
      split
      next haccepts =>
        have hstep := h.step haccepts
        split
        next hlast =>
          subst hlast
          have htokens := hstep.tokens_eq
          rw [List.append_nil] at htokens
          refine ⟨k, rfl, ⟨?_, ?_⟩, h.missed⟩
          · rw [htokens, List.length_append, List.length_singleton, ← htokens]
            omega
          · have hmatched := hstep.matched
            rw [← htokens] at hmatched
            exact hmatched
        next hmore =>
          have hrun := ih hstep hmore (by rw [List.length_append, List.length_singleton]; omega)
          rw [List.length_append, List.length_singleton, ← Nat.add_assoc] at hrun
          exact hrun
      next hrefused =>
        have hnext := h.attemptStart_succ hrefused
        have htokens : tokens ≠ [] := by
          rw [h.tokens_eq]
          exact List.append_ne_nil_of_right_ne_nil _ (List.cons_ne_nil _ _)
        have hrun := ih (h.restart hrefused) htokens (by rw [hnext, List.length_nil]; omega)
        rw [hnext, List.length_nil, Nat.add_zero] at hrun
        exact hrun

theorem firstHit_restartSearch_zero (htokens : tokens ≠ []) :
    FirstHit accepts tokens text length (restartSearch accepts tokens text length tokens 0 0) :=
  firstHit_restartSearch (Attempt.start rfl) htokens (Nat.zero_add _)

theorem occurs_of_restartSearch (htokens : tokens ≠ [])
    (h : restartSearch accepts tokens text length tokens 0 0 = some s) :
    Occurs accepts tokens text length s := by
  have hhit : FirstHit accepts tokens text length
    (restartSearch accepts tokens text length tokens 0 0) := firstHit_restartSearch_zero htokens
  rw [h] at hhit
  obtain ⟨_, _, hoccurs, _⟩ := hhit
  exact hoccurs

/-- The lowest occurrence is found exactly when an attempt starts there. -/
theorem restartSearch_eq_some_iff (htokens : tokens ≠ [])
    (hleast : IsLeast {i | Occurs accepts tokens text length i} s) :
    restartSearch accepts tokens text length tokens 0 0 = some s ↔
      s ∈ Set.range (attemptStart accepts tokens text) := by
  have hhit : FirstHit accepts tokens text length
    (restartSearch accepts tokens text length tokens 0 0) := firstHit_restartSearch_zero htokens
  cases hrun : restartSearch accepts tokens text length tokens 0 0 with
  | none =>
    rw [hrun] at hhit
    refine iff_of_false (by rintro ⟨⟩) ?_
    rintro ⟨i, rfl⟩
    exact hhit i hleast.1
  | some found =>
    rw [hrun] at hhit
    obtain ⟨k, rfl, hoccurs, hmissed⟩ := hhit
    constructor
    · rintro ⟨⟩
      exact ⟨k, rfl⟩
    · rintro ⟨i, rfl⟩
      have hle : i ≤ k := attemptStart_strictMono.le_iff_le.1 (hleast.2 hoccurs)
      rcases Nat.lt_or_eq_of_le hle with hlt | rfl
      · exact absurd hleast.1 (hmissed i hlt)
      · rfl

theorem restartSearch_eq_none (htokens : tokens ≠ [])
    (hnone : ∀ i, ¬Occurs accepts tokens text length i) :
    restartSearch accepts tokens text length tokens 0 0 = none := by
  cases hrun : restartSearch accepts tokens text length tokens 0 0 with
  | none => rfl
  | some found => exact absurd (occurs_of_restartSearch htokens hrun) (hnone found)

end RestartSearch
