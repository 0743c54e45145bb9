import Mathlib.Tactic

/-!
# Updating a table kept in two copies

A table is stored in a primary and a backup copy. An update replaces the backup copy
and then the primary copy, and may stop on the way; a copy whose replacement has begun
and not ended holds nothing usable. `Recoverable` states keep a usable copy.

One update of an intact state is recoverable at every stage. An update that follows an
interrupted one is not: it opens the backup copy first, whatever the primary copy holds.
-/

namespace TwoCopy

variable {τ : Type*}

inductive Side
  | primary
  | backup
  deriving DecidableEq, Repr

/-- How far an update got: not begun, within the backup copy, within the primary copy. -/
inductive Stage
  | untouched
  | backupOpen
  | primaryOpen
  | done
  deriving DecidableEq, Repr

/-- The table each copy holds, `none` for a copy that holds nothing usable. -/
@[ext] structure State (τ : Type*) where
  primary : Option τ
  backup : Option τ
  deriving DecidableEq, Repr

namespace State

def copy (s : State τ) : Side → Option τ
  | .primary => s.primary
  | .backup => s.backup

def both (t : τ) : State τ := ⟨some t, some t⟩

@[simp] theorem copy_both (t : τ) (side : Side) : (both t).copy side = some t := by
  cases side <;> rfl

def Recoverable (s : State τ) : Prop := ∃ side t, s.copy side = some t

theorem recoverable_iff (s : State τ) :
    s.Recoverable ↔ s.primary.isSome = true ∨ s.backup.isSome = true := by
  constructor
  · rintro ⟨side, t, h⟩
    cases side with
    | primary => exact Or.inl (Option.isSome_iff_exists.mpr ⟨t, h⟩)
    | backup => exact Or.inr (Option.isSome_iff_exists.mpr ⟨t, h⟩)
  · rintro (h | h)
    · obtain ⟨t, ht⟩ := Option.isSome_iff_exists.mp h
      exact ⟨.primary, t, ht⟩
    · obtain ⟨t, ht⟩ := Option.isSome_iff_exists.mp h
      exact ⟨.backup, t, ht⟩

end State

def update (t : τ) (s : State τ) : Stage → State τ
  | .untouched => s
  | .backupOpen => ⟨s.primary, none⟩
  | .primaryOpen => ⟨none, some t⟩
  | .done => State.both t

theorem update_recoverable (t : τ) {s : State τ} (h : s.primary.isSome = true) (stage : Stage) :
    (update t s stage).Recoverable := by
  rw [State.recoverable_iff]
  cases stage with
  | untouched => exact Or.inl h
  | backupOpen => exact Or.inl h
  | primaryOpen => exact Or.inr rfl
  | done => exact Or.inl rfl

/-- The only way to lose both copies: the first update stops within the primary copy and
the second within the backup copy. -/
theorem update_update_recoverable_iff (old new : τ) (first second : Stage) :
    (update old (update new (State.both old) first) second).Recoverable ↔
      ¬ (first = .primaryOpen ∧ second = .backupOpen) := by
  rw [State.recoverable_iff]
  cases first <;> cases second <;> simp [update, State.both]

end TwoCopy
