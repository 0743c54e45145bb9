import Mathlib.Data.List.Basic

/-!
# The use of a memory pool

The log of a run that allocates and frees buffers, newest event first. A buffer is released
properly if it is live when it is freed: the run allocated it and has not freed it since.
-/

namespace PoolUse

variable {α : Type*}

inductive PoolEvent (α : Type*)
  | allocate (buffer : α)
  | free (buffer : α)
  deriving DecidableEq, Repr

def Live (buffer : α) : List (PoolEvent α) → Prop
  | [] => False
  | .allocate other :: log => buffer = other ∨ Live buffer log
  | .free other :: log => buffer ≠ other ∧ Live buffer log

/-- Each buffer that is freed is live at that time. -/
def Releases : List (PoolEvent α) → Prop
  | [] => True
  | .allocate _ :: log => Releases log
  | .free buffer :: log => Live buffer log ∧ Releases log

instance decidableLive [DecidableEq α] (buffer : α) :
    (log : List (PoolEvent α)) → Decidable (Live buffer log)
  | [] => .isFalse id
  | .allocate other :: log =>
    have := decidableLive buffer log
    inferInstanceAs (Decidable (buffer = other ∨ Live buffer log))
  | .free other :: log =>
    have := decidableLive buffer log
    inferInstanceAs (Decidable (buffer ≠ other ∧ Live buffer log))

instance decidableReleases [DecidableEq α] :
    (log : List (PoolEvent α)) → Decidable (Releases log)
  | [] => .isTrue trivial
  | .allocate _ :: log => decidableReleases log
  | .free buffer :: log =>
    have := decidableReleases log
    inferInstanceAs (Decidable (Live buffer log ∧ Releases log))

variable {buffer other : α} {log : List (PoolEvent α)}

@[simp] theorem not_live_nil : ¬Live buffer ([] : List (PoolEvent α)) := id

@[simp] theorem live_allocate :
    Live buffer (.allocate other :: log) ↔ buffer = other ∨ Live buffer log := Iff.rfl

@[simp] theorem live_free :
    Live buffer (.free other :: log) ↔ buffer ≠ other ∧ Live buffer log := Iff.rfl

@[simp] theorem releases_nil : Releases ([] : List (PoolEvent α)) := trivial

@[simp] theorem releases_allocate : Releases (.allocate buffer :: log) ↔ Releases log := Iff.rfl

@[simp] theorem releases_free :
    Releases (.free buffer :: log) ↔ Live buffer log ∧ Releases log := Iff.rfl

end PoolUse
