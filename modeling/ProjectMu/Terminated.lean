import Mathlib.Tactic

/-!
# Terminated sequences

A sequence in a larger store can end at the first value of a kind that it does not contain itself.
`untilEnd` reads it and what is behind its end; a store without an end has no such sequence.
-/

namespace Terminated

variable {α : Type*} (isEnd : α → Bool)

/-- The values in front of the first end and those behind it. -/
def untilEnd : List α → Option (List α × List α)
  | [] => none
  | a :: l => if isEnd a then some ([], l) else (untilEnd l).map (fun p => (a :: p.1, p.2))

variable {isEnd} {l items rest : List α} {e : α}

theorem untilEnd_of_end (h : ∀ a ∈ l, isEnd a = false) (he : isEnd e = true) (rest : List α) :
    untilEnd isEnd (l ++ e :: rest) = some (l, rest) := by
  induction l with
  | nil => exact if_pos he
  | cons a l ih =>
    obtain ⟨ha, hl⟩ := List.forall_mem_cons.mp h
    rw [List.cons_append, untilEnd, ha, if_neg Bool.false_ne_true, ih hl]
    rfl

theorem eq_of_untilEnd (h : untilEnd isEnd l = some (items, rest)) :
    (∀ a ∈ items, isEnd a = false) ∧ ∃ e, isEnd e = true ∧ l = items ++ e :: rest := by
  induction l generalizing items with
  | nil => cases h
  | cons a l ih =>
    cases ha : isEnd a with
    | true =>
      rw [untilEnd, if_pos ha] at h
      cases h
      exact ⟨fun _ hmem => absurd hmem List.not_mem_nil, a, ha, rfl⟩
    | false =>
      rw [untilEnd, ha, if_neg Bool.false_ne_true] at h
      obtain ⟨p, hp, heq⟩ := Option.map_eq_some_iff.mp h
      cases heq
      obtain ⟨hitems, e, he, hl⟩ := ih hp
      exact ⟨List.forall_mem_cons.mpr ⟨ha, hitems⟩, e, he, by rw [hl]; rfl⟩

/-- A first part as long as the values that are read is what is read. -/
theorem eq_of_length_eq {front back : List α}
    (h : untilEnd isEnd (front ++ back) = some (items, rest))
    (hlength : items.length = front.length) : items = front ∧ back ≠ [] := by
  obtain ⟨-, e, -, heq⟩ := eq_of_untilEnd h
  obtain ⟨hfront, hback⟩ := List.append_inj heq hlength.symm
  exact ⟨hfront.symm, by rw [hback]; exact List.cons_ne_nil e rest⟩

/-! ### Sets of terminated sequences

Each item is followed by an end and the set by another one; the set of no items is two ends. An
empty item cannot be told from the end of the set. -/

section Set

variable {α : Type*} {e : α} {items : List (List α)} {l rest : List α} {fuel : ℕ}

def encodeItems (e : α) : List (List α) → List α
  | [] => []
  | item :: items => item ++ e :: encodeItems e items

def encodeSet (e : α) (items : List (List α)) : List α :=
  if items = [] then [e, e] else encodeItems e items ++ [e]

/-- Nonempty, and without an end. -/
def IsItem (e : α) (item : List α) : Prop := item ≠ [] ∧ e ∉ item

theorem length_le_encodeItems (e : α) (items : List (List α)) :
    items.length ≤ (encodeItems e items).length := by
  induction items with
  | nil => exact le_rfl
  | cons item items ih =>
    rw [encodeItems, List.length_append, List.length_cons, List.length_cons]
    omega

variable [DecidableEq α]

def parseItems (e : α) : ℕ → List α → Option (List (List α) × List α)
  | 0, _ => none
  | _ + 1, [] => none
  | fuel + 1, a :: l =>
    if a = e then some ([], l)
    else (untilEnd (· == e) (a :: l)).bind fun p =>
      (parseItems e fuel p.2).map fun q => (p.1 :: q.1, q.2)

/-- The items of a set and what is behind it. -/
def parseSet (e : α) : List α → Option (List (List α) × List α)
  | [] => none
  | [_] => none
  | a :: b :: l =>
    if a = e then (if b = e then some ([], l) else none)
    else parseItems e (l.length + 2) (a :: b :: l)

theorem untilEnd_item {item : List α} (h : IsItem e item) (rest : List α) :
    untilEnd (· == e) (item ++ e :: rest) = some (item, rest) :=
  untilEnd_of_end (fun _ ha => beq_false_of_ne (ne_of_mem_of_not_mem ha h.2))
    (beq_self_eq_true e) rest

theorem parseItems_encodeItems (h : ∀ item ∈ items, IsItem e item) (hfuel : items.length < fuel)
    (rest : List α) :
    parseItems e fuel (encodeItems e items ++ e :: rest) = some (items, rest) := by
  induction items generalizing fuel with
  | nil =>
    obtain ⟨fuel, rfl⟩ : ∃ f, fuel = f + 1 := ⟨fuel - 1, by omega⟩
    exact if_pos rfl
  | cons item items ih =>
    obtain ⟨hitem, hitems⟩ := List.forall_mem_cons.mp h
    obtain ⟨fuel, rfl⟩ : ∃ f, fuel = f + 1 := ⟨fuel - 1, by omega⟩
    have hrest := ih hitems (Nat.lt_of_succ_lt_succ hfuel)
    have huntil := untilEnd_item hitem (encodeItems e items ++ e :: rest)
    obtain ⟨a, tail, rfl⟩ := List.exists_cons_of_ne_nil hitem.1
    have ha : a ≠ e := fun heq => hitem.2 (heq ▸ List.mem_cons_self)
    rw [encodeItems, List.append_assoc, List.cons_append, List.cons_append, parseItems, if_neg ha]
    rw [List.cons_append] at huntil
    rw [huntil, Option.bind_some, hrest]
    rfl

theorem eq_of_parseItems (h : parseItems e fuel l = some (items, rest)) :
    (∀ item ∈ items, IsItem e item) ∧ l = encodeItems e items ++ e :: rest := by
  induction fuel generalizing l items with
  | zero => cases h
  | succ fuel ih =>
    cases l with
    | nil => cases h
    | cons a l =>
      rw [parseItems] at h
      by_cases ha : a = e
      · rw [if_pos ha] at h
        cases h
        exact ⟨fun _ hmem => absurd hmem List.not_mem_nil, by rw [ha]; rfl⟩
      · rw [if_neg ha] at h
        obtain ⟨⟨item, behind⟩, huntil, hmap⟩ := Option.bind_eq_some_iff.mp h
        obtain ⟨⟨others, rest'⟩, hparse, heq⟩ := Option.map_eq_some_iff.mp hmap
        cases heq
        obtain ⟨hothers, hbehind⟩ := ih hparse
        dsimp only at hothers hbehind ⊢
        obtain ⟨hitem, e', he', hl⟩ := eq_of_untilEnd huntil
        have hend : e' = e := eq_of_beq he'
        have hisItem : IsItem e item := by
          refine ⟨?_, fun hmem => ?_⟩
          · rintro rfl
            rw [List.nil_append, List.cons.injEq] at hl
            exact ha (hl.1.trans hend)
          · exact absurd (hitem e hmem) (by simp)
        refine ⟨List.forall_mem_cons.mpr ⟨hisItem, hothers⟩, ?_⟩
        rw [hl, hend, hbehind, encodeItems, List.append_assoc]
        rfl

theorem parseSet_encodeSet (h : ∀ item ∈ items, IsItem e item) (rest : List α) :
    parseSet e (encodeSet e items ++ rest) = some (items, rest) := by
  rw [encodeSet]
  cases items with
  | nil => exact (if_pos rfl).trans (if_pos rfl)
  | cons item items =>
    have hlength := length_le_encodeItems e (item :: items)
    have hparse (fuel : ℕ) := @parseItems_encodeItems _ e (item :: items) fuel _ h
    rw [if_neg (List.cons_ne_nil item items), List.append_assoc, List.cons_append,
      List.nil_append]
    obtain ⟨⟨hitem, hmem⟩, -⟩ := List.forall_mem_cons.mp h
    obtain ⟨a, tail, rfl⟩ := List.exists_cons_of_ne_nil hitem
    have ha : a ≠ e := ne_of_mem_of_not_mem List.mem_cons_self hmem
    obtain ⟨b, back, hback⟩ := List.exists_cons_of_ne_nil
      (List.append_ne_nil_of_right_ne_nil (tail ++ e :: encodeItems e items)
        (List.cons_ne_nil e rest))
    have hwhole : encodeItems e ((a :: tail) :: items) ++ e :: rest = a :: b :: back := by
      rw [encodeItems, List.cons_append, List.cons_append, hback]
    have hfuel := congrArg List.length hwhole
    rw [List.length_append, List.length_cons, List.length_cons, List.length_cons] at hfuel
    rw [hwhole, parseSet, if_neg ha, ← hwhole]
    exact hparse _ (by omega) rest

theorem eq_of_parseSet (h : parseSet e l = some (items, rest)) :
    (∀ item ∈ items, IsItem e item) ∧ l = encodeSet e items ++ rest := by
  match l with
  | [] => cases h
  | [_] => cases h
  | a :: b :: l =>
    rw [parseSet] at h
    by_cases ha : a = e
    · rw [if_pos ha] at h
      by_cases hb : b = e
      · rw [if_pos hb] at h
        cases h
        exact ⟨fun _ hmem => absurd hmem List.not_mem_nil, by rw [ha, hb]; rfl⟩
      · rw [if_neg hb] at h
        cases h
    · rw [if_neg ha] at h
      obtain ⟨hitems, hl⟩ := eq_of_parseItems h
      have hne : items ≠ [] := by
        rintro rfl
        exact ha (List.cons.inj hl).1
      refine ⟨hitems, ?_⟩
      rw [hl, encodeSet, if_neg hne, List.append_assoc]
      rfl

/-- A set that follows one value and is the same without it is empty, and the value is an end. -/
theorem eq_nil_of_shift {a : α} (hitems : ∀ item ∈ items, IsItem e item)
    (h : encodeSet e items ++ [e] = a :: encodeSet e items) : items = [] ∧ a = e := by
  cases items with
  | nil => exact ⟨rfl, (List.cons.inj h).1.symm⟩
  | cons item items =>
    obtain ⟨hitem, -⟩ := List.forall_mem_cons.mp hitems
    have hset : encodeSet e (item :: items) = item ++ e :: (encodeItems e items ++ [e]) := by
      rw [encodeSet, if_neg (List.cons_ne_nil item items), encodeItems, List.append_assoc]
      rfl
    rw [hset, List.append_assoc, List.cons_append] at h
    have hfront := untilEnd_item hitem (encodeItems e items ++ [e] ++ [e])
    have ha : a ≠ e := by
      obtain ⟨b, tail, rfl⟩ := List.exists_cons_of_ne_nil hitem.1
      rw [← (List.cons.inj h).1]
      exact ne_of_mem_of_not_mem List.mem_cons_self hitem.2
    have hshifted : IsItem e (a :: item) :=
      ⟨List.cons_ne_nil a item, fun hmem => (List.mem_cons.mp hmem).elim (fun heq => ha heq.symm)
        hitem.2⟩
    have hback := untilEnd_item hshifted (encodeItems e items ++ [e])
    rw [List.cons_append, ← h, hfront] at hback
    have hlength := congrArg List.length (Prod.mk.inj (Option.some_inj.mp hback)).1
    rw [List.length_cons] at hlength
    omega

end Set

end Terminated
