import Mathlib.Tactic

/-!
# Queues in a ring of cells

A queue is a ring of `N` cells with the index of its head and of the cell behind its tail,
so that one cell always stays free. `Represents q l` says that the cells from the head on
hold the values of `l`, oldest first; pushing and popping are then what they are on lists that
hold at most `N - 1` values.
-/

namespace RingQueue

variable {α : Type*}

structure Cells (N : ℕ) (α : Type*) where
  buffer : ℕ → α
  head : ℕ
  tail : ℕ

variable {N : ℕ}

def Cells.IsEmpty (q : Cells N α) : Prop := q.head = q.tail

instance (q : Cells N α) : Decidable q.IsEmpty := inferInstanceAs (Decidable (_ = _))

def Cells.IsFull (q : Cells N α) : Prop := (q.tail + 1) % N = q.head

instance (q : Cells N α) : Decidable q.IsFull := inferInstanceAs (Decidable (_ = _))

def Cells.pop (q : Cells N α) : Option (α × Cells N α) :=
  if q.IsEmpty then none else some (q.buffer q.head, { q with head := (q.head + 1) % N })

/-- Appending to a list of at most `capacity` values, whose oldest makes room. -/
def pushBounded (capacity : ℕ) (l : List α) (a : α) : List α :=
  (if l.length = capacity then l.tail else l) ++ [a]

/-- A push onto a full queue drops its oldest value first. -/
def Cells.push (q : Cells N α) (a : α) : Cells N α :=
  let q := if q.IsFull then (q.pop.map Prod.snd).getD q else q
  { q with
    buffer := Function.update q.buffer q.tail a
    tail := (q.tail + 1) % N }

structure Represents (q : Cells N α) (l : List α) : Prop where
  head_lt : q.head < N
  length_lt : l.length < N
  tail_eq : q.tail = (q.head + l.length) % N
  cells : ∀ i (h : i < l.length), q.buffer ((q.head + i) % N) = l[i]

theorem cell_injective {h i j : ℕ} (hi : i < N) (hj : j < N) (heq : (h + i) % N = (h + j) % N) :
    i = j := by
  have hmod : i ≡ j [MOD N] := Nat.ModEq.add_left_cancel' h heq
  exact hmod.eq_of_lt_of_lt hi hj

variable {q : Cells N α} {l : List α} {a : α}

theorem Represents.nil_of_eq (hlt : q.head < N) (h : q.head = q.tail) : Represents q [] := by
  refine ⟨hlt, Nat.zero_lt_of_lt hlt, ?_, fun i hi => absurd hi (Nat.not_lt_zero i)⟩
  rw [← h, List.length_nil, Nat.add_zero, Nat.mod_eq_of_lt hlt]

theorem Represents.isEmpty_iff (h : Represents q l) : q.IsEmpty ↔ l = [] := by
  have hhead : (q.head + 0) % N = q.head := Nat.mod_eq_of_lt h.head_lt
  rw [Cells.IsEmpty, h.tail_eq]
  constructor
  · intro heq
    rw [← hhead, Nat.mod_add_mod] at heq
    have := cell_injective (Nat.zero_lt_of_lt h.head_lt) h.length_lt heq
    exact List.eq_nil_of_length_eq_zero this.symm
  · intro hnil
    rw [hnil]
    exact hhead.symm

theorem Represents.isFull_iff (h : Represents q l) : q.IsFull ↔ l.length + 1 = N := by
  have hlt := h.length_lt
  have hhead : (q.head + 0) % N = q.head := Nat.mod_eq_of_lt h.head_lt
  rw [Cells.IsFull, h.tail_eq, Nat.mod_add_mod, Nat.add_assoc]
  constructor
  · intro heq
    rcases Nat.lt_or_ge (l.length + 1) N with hroom | hfull
    · rw [← hhead, Nat.mod_add_mod] at heq
      have := cell_injective hroom (Nat.zero_lt_of_lt hlt) heq
      omega
    · omega
  · intro hfull
    rw [hfull, Nat.add_mod_right]
    exact Nat.mod_eq_of_lt h.head_lt

theorem Represents.pop_nil (h : Represents q []) : q.pop = none :=
  if_pos (h.isEmpty_iff.mpr rfl)

theorem Represents.pop_cons (h : Represents q (a :: l)) :
    ∃ q', q.pop = some (a, q') ∧ Represents q' l := by
  have hlen := h.length_lt
  rw [List.length_cons] at hlen
  have hne : ¬q.IsEmpty := fun he => List.cons_ne_nil a l (h.isEmpty_iff.mp he)
  have hfirst : q.buffer q.head = a := by
    have := h.cells 0 (Nat.succ_pos _)
    rwa [Nat.add_zero, Nat.mod_eq_of_lt h.head_lt] at this
  refine ⟨{ q with head := (q.head + 1) % N }, ?_, ?_⟩
  · rw [Cells.pop, if_neg hne, hfirst]
  · refine ⟨Nat.mod_lt _ (Nat.zero_lt_of_lt h.head_lt), by omega, ?_, ?_⟩
    · change q.tail = ((q.head + 1) % N + l.length) % N
      rw [h.tail_eq, List.length_cons, Nat.mod_add_mod]
      congr 1
      omega
    · intro i hi
      have := h.cells (i + 1) (Nat.succ_lt_succ hi)
      change q.buffer (((q.head + 1) % N + i) % N) = l[i]
      rw [Nat.mod_add_mod, show q.head + 1 + i = q.head + (i + 1) by omega, this]
      rfl

theorem Represents.push (h : Represents q l) (hroom : ¬q.IsFull) (a : α) :
    Represents (q.push a) (l ++ [a]) := by
  have hlt := h.length_lt
  have hne : l.length + 1 ≠ N := fun hfull => hroom (h.isFull_iff.mpr hfull)
  have hpush : q.push a =
      { q with buffer := Function.update q.buffer q.tail a, tail := (q.tail + 1) % N } := by
    rw [Cells.push, if_neg hroom]
  rw [hpush]
  refine ⟨h.head_lt, by rw [List.length_append, List.length_singleton]; omega, ?_, ?_⟩
  · change (q.tail + 1) % N = _
    rw [h.tail_eq, Nat.mod_add_mod, List.length_append, List.length_singleton, Nat.add_assoc]
  · intro i hi
    rw [List.length_append, List.length_singleton] at hi
    change Function.update q.buffer q.tail a ((q.head + i) % N) = _
    rcases Nat.lt_or_ge i l.length with hold | hnew
    · have hother : (q.head + i) % N ≠ q.tail := by
        rw [h.tail_eq]
        intro heq
        have := cell_injective (by omega) hlt heq
        omega
      rw [Function.update_of_ne hother, h.cells i hold, List.getElem_append_left hold]
    · obtain rfl : i = l.length := by omega
      rw [← h.tail_eq, Function.update_self, List.getElem_concat_length rfl]

theorem Represents.tail_lt (h : Represents q l) : q.tail < N := by
  rw [h.tail_eq]
  exact Nat.mod_lt _ (Nat.zero_lt_of_lt h.head_lt)

/-- A push onto a full queue is a push onto the queue without its oldest value. -/
theorem Cells.push_of_isFull {q' : Cells N α} {b : α} (hfull : q.IsFull)
    (hpop : q.pop = some (b, q')) (hroom : ¬q'.IsFull) (a : α) : q.push a = q'.push a := by
  simp only [Cells.push, if_pos hfull, if_neg hroom, hpop, Option.map_some, Option.getD_some]

theorem Represents.push_bounded (hN : 1 < N) (h : Represents q l) (a : α) :
    Represents (q.push a) (pushBounded (N - 1) l a) := by
  have hlt := h.length_lt
  rw [pushBounded]
  by_cases hfull : q.IsFull
  · have hlen : l.length + 1 = N := h.isFull_iff.mp hfull
    rw [if_pos (by omega)]
    cases l with
    | nil =>
      rw [List.length_nil] at hlen
      omega
    | cons b l =>
      obtain ⟨q', hpop, hrest⟩ := h.pop_cons
      rw [List.length_cons] at hlen
      have hroom : ¬q'.IsFull := fun hfull' => by
        have := hrest.isFull_iff.mp hfull'
        omega
      rw [Cells.push_of_isFull hfull hpop hroom]
      exact hrest.push hroom a
  · have hlen : l.length + 1 ≠ N := fun hlen => hfull (h.isFull_iff.mpr hlen)
    rw [if_neg (by omega)]
    exact h.push hfull a

end RingQueue
