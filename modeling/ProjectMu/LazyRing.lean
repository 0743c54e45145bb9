import Mathlib.Tactic

/-!
# Rings that wrap late

A ring stores the values it is given one behind the other. When the cursor has reached the
end it stays there, and the next value goes to the front. What a reader obtains is a
suffix of everything stored: as much of it as the ring holds.
-/

namespace LazyRing

variable {α : Type*}

structure RingBuffer (α : Type*) where
  text : List α
  cursor : ℕ
  wrapped : Bool
  deriving DecidableEq, Repr

def RingBuffer.fresh (text : List α) : RingBuffer α := ⟨text, 0, false⟩

/-- Go back to the front from the end, or from anything behind it. -/
def RingBuffer.wrapAround (r : RingBuffer α) : RingBuffer α :=
  if r.text.length ≤ r.cursor then { r with cursor := 0, wrapped := true } else r

def RingBuffer.push (r : RingBuffer α) (c : α) : RingBuffer α :=
  { r.wrapAround with
    text := r.text.set r.wrapAround.cursor c
    cursor := r.wrapAround.cursor + 1 }

def RingBuffer.pushAll (r : RingBuffer α) (cs : List α) : RingBuffer α :=
  cs.foldl RingBuffer.push r

/-- What a reader obtains, oldest first. -/
def RingBuffer.contents (r : RingBuffer α) : List α :=
  if r.wrapped then r.text.drop r.cursor ++ r.text.take r.cursor else r.text.take r.cursor

/-- The last `n` values. -/
def lastN (n : ℕ) (l : List α) : List α := l.drop (l.length - n)

theorem lastN_of_length_le {n : ℕ} {l : List α} (h : l.length ≤ n) : lastN n l = l := by
  rw [lastN, Nat.sub_eq_zero_of_le h, List.drop_zero]

theorem lastN_append_of_le {n : ℕ} {l m : List α} (h : n ≤ m.length) :
    lastN n (l ++ m) = lastN n m := by
  rw [lastN, lastN, List.length_append, List.drop_append, List.drop_eq_nil_of_le (by omega),
    List.nil_append]
  congr 1
  omega

theorem lastN_lastN_append (n : ℕ) (l : List α) (c : α) :
    lastN n (lastN n l ++ [c]) = lastN n (l ++ [c]) := by
  rcases Nat.le_total l.length n with h | h
  · rw [lastN_of_length_le h]
  · have hsplit : l ++ [c] = l.take (l.length - n) ++ (lastN n l ++ [c]) := by
      rw [lastN, ← List.append_assoc, List.take_append_drop]
    have hlen : n ≤ (lastN n l ++ [c]).length := by
      rw [lastN, List.length_append, List.length_drop]
      omega
    rw [hsplit, lastN_append_of_le hlen]

theorem lastN_succ_append {n : ℕ} {l : List α} (h : l.length = n + 1) (c : α) :
    lastN (n + 1) (l ++ [c]) = l.drop 1 ++ [c] := by
  rw [lastN, List.length_append, h, List.length_singleton, Nat.add_sub_cancel_left,
    List.drop_append_of_le_length (by omega)]

variable {r : RingBuffer α}

@[simp] theorem length_text_push (r : RingBuffer α) (c : α) :
    (r.push c).text.length = r.text.length :=
  List.length_set ..

theorem cursor_wrapAround_lt (h : r.text ≠ []) : r.wrapAround.cursor < r.text.length := by
  have hpos := List.length_pos_of_ne_nil h
  unfold RingBuffer.wrapAround
  split_ifs
  · exact hpos
  · omega

/-- After a push the cursor is inside, whatever it was before. -/
theorem cursor_push_le (h : r.text ≠ []) (c : α) : (r.push c).cursor ≤ r.text.length :=
  cursor_wrapAround_lt h

/-- Wrapping around does not change what a reader obtains. -/
theorem contents_wrapAround (r : RingBuffer α) : r.wrapAround.contents = r.contents := by
  unfold RingBuffer.wrapAround
  split_ifs with hend
  · simp [RingBuffer.contents, List.take_of_length_le hend, List.drop_eq_nil_of_le hend]
  · rfl

/-- A push below the end appends the value, dropping the oldest one when the ring is full. -/
theorem contents_push_of_lt (hlt : r.cursor < r.text.length) (c : α) :
    (r.push c).contents = lastN r.text.length (r.contents ++ [c]) := by
  have hwrap : r.wrapAround = r := by
    rw [RingBuffer.wrapAround, if_neg (by omega)]
  have hset := List.set_eq_take_append_cons_drop (l := r.text) (a := c) (i := r.cursor)
  rw [if_pos hlt] at hset
  have htake : (r.text.take r.cursor).length = r.cursor := by
    rw [List.length_take]
    omega
  have hnewTake : (r.text.set r.cursor c).take (r.cursor + 1) = r.text.take r.cursor ++ [c] := by
    rw [hset, List.take_append, htake, List.take_of_length_le (by omega)]
    simp
  have hnewDrop : (r.text.set r.cursor c).drop (r.cursor + 1) = r.text.drop (r.cursor + 1) :=
    List.drop_set_of_lt (by omega)
  unfold RingBuffer.push RingBuffer.contents
  rw [hwrap]
  dsimp only
  rw [hnewTake, hnewDrop]
  cases r.wrapped with
  | false =>
    rw [if_neg Bool.false_ne_true, if_neg Bool.false_ne_true, lastN_of_length_le]
    rw [List.length_append, htake]
    exact hlt
  | true =>
    rw [if_pos rfl, if_pos rfl]
    have hfull : (r.text.drop r.cursor ++ r.text.take r.cursor).length =
        r.text.length - 1 + 1 := by
      rw [List.length_append, List.length_drop, htake]
      omega
    have hdrop : (r.text.drop r.cursor ++ r.text.take r.cursor).drop 1 =
        r.text.drop (r.cursor + 1) ++ r.text.take r.cursor := by
      rw [List.drop_append_of_le_length (by rw [List.length_drop]; omega), List.drop_drop]
    have hlast := lastN_succ_append hfull c
    rw [Nat.sub_add_cancel (by omega), hdrop] at hlast
    rw [hlast, List.append_assoc]

theorem contents_push (hne : r.text ≠ []) (c : α) :
    (r.push c).contents = lastN r.text.length (r.contents ++ [c]) := by
  have hlt := cursor_wrapAround_lt hne
  have htext : r.wrapAround.text = r.text := by
    unfold RingBuffer.wrapAround
    split_ifs <;> rfl
  have hidem : r.wrapAround.wrapAround = r.wrapAround := by
    rw [RingBuffer.wrapAround, if_neg (by rw [htext]; omega)]
  have hpush : r.push c = r.wrapAround.push c := by
    rw [RingBuffer.push, RingBuffer.push, hidem, htext]
  rw [hpush, contents_push_of_lt (by rwa [htext]), htext, contents_wrapAround]

theorem push_fresh {text : List α} (hne : text ≠ []) (c : α) :
    (RingBuffer.fresh text).push c = ⟨text.set 0 c, 1, false⟩ := by
  have hpos := List.length_pos_of_ne_nil hne
  have hwrap : (RingBuffer.fresh text).wrapAround = RingBuffer.fresh text := by
    rw [RingBuffer.wrapAround]
    exact if_neg (Nat.not_le_of_lt hpos)
  rw [RingBuffer.push, hwrap]
  rfl

/-- From a fresh ring, a reader obtains the last values that were stored. -/
theorem contents_pushAll_fresh {text : List α} (hne : text ≠ []) (cs : List α) :
    ((RingBuffer.fresh text).pushAll cs).contents = lastN text.length cs ∧
      ((RingBuffer.fresh text).pushAll cs).text.length = text.length := by
  induction cs using List.reverseRecOn with
  | nil => exact ⟨(lastN_of_length_le (Nat.zero_le _)).symm, rfl⟩
  | append_singleton cs c ih =>
    obtain ⟨hcontents, hlen⟩ := ih
    have hstep : (RingBuffer.fresh text).pushAll (cs ++ [c]) =
        ((RingBuffer.fresh text).pushAll cs).push c :=
      List.foldl_concat ..
    have hne' : ((RingBuffer.fresh text).pushAll cs).text ≠ [] := by
      intro h
      rw [h] at hlen
      exact hne (List.eq_nil_of_length_eq_zero hlen.symm)
    rw [hstep]
    refine ⟨?_, by rw [length_text_push, hlen]⟩
    rw [contents_push hne', hlen, hcontents, lastN_lastN_append]

end LazyRing
