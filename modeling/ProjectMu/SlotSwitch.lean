import Mathlib.Tactic

/-!
# Switching the pairs of an A/B table

A table assigns a cell to every index; a cell has a kind and an activity. `partner` names
the second cell of a pair for some indices. A run visits a list of indices in order. It
passes over a pair without activity, stops at a pair that is not active on the one slot
that is to be left, and otherwise exchanges the two kinds and moves the activity to the
target slot. The run keeps a log of the pairs it switched.
-/

namespace SlotSwitch

inductive Slot
  | a
  | b
  deriving DecidableEq, Repr

def Slot.other : Slot → Slot
  | .a => .b
  | .b => .a

@[simp] theorem Slot.other_other (s : Slot) : s.other.other = s := by
  cases s <;> rfl

theorem Slot.eq_other {s t : Slot} (h : s ≠ t) : s = t.other := by
  cases s <;> cases t <;> first | rfl | exact absurd rfl h

/-- How the kind and the activity of a cell are read and replaced. -/
structure Access (κ γ : Type*) where
  kind : κ → γ
  active : κ → Bool
  put : κ → γ → Bool → κ
  kind_put : ∀ c k v, kind (put c k v) = k
  active_put : ∀ c k v, active (put c k v) = v
  put_put : ∀ c k v k' v', put (put c k v) k' v' = put c k' v'

attribute [simp] Access.kind_put Access.active_put Access.put_put

/-- The static part of a table: the partner of an index, and whether the two may be
switched at all. -/
structure Pairing (ι : Type*) where
  partner : ι → Option ι
  sound : ι → ι → Bool

structure Run (ι κ : Type*) where
  state : ι → κ
  log : List (ι × ι)

variable {ι κ γ : Type*} [DecidableEq ι] (c : Access κ γ) (p : Pairing ι)

/-- The slot a pair is active on, if it is active on exactly one. -/
def pairSlot (x y : κ) : Option Slot :=
  match c.active x, c.active y with
  | true, false => some .a
  | false, true => some .b
  | _, _ => none

def Idle (x y : κ) : Prop := c.active x = false ∧ c.active y = false

instance (x y : κ) : Decidable (Idle c x y) := inferInstanceAs (Decidable (_ ∧ _))

/-- The slot that the pair of an index shows. -/
def observe (s : ι → κ) (a : ι) : Option Slot :=
  (p.partner a).bind (fun b => pairSlot c (s a) (s b))

def switchPair (target : Slot) (s : ι → κ) (a b : ι) : ι → κ :=
  Function.update (Function.update s a (c.put (s a) (c.kind (s b)) (decide (target = .a)))) b
    (c.put (s b) (c.kind (s a)) (decide (target = .b)))

def step (target : Slot) (r : Run ι κ) (a : ι) : Option (Run ι κ) :=
  match p.partner a with
  | none => some r
  | some b =>
    if p.sound a b = false then none
    else if Idle c (r.state a) (r.state b) then some r
    else if pairSlot c (r.state a) (r.state b) = some target.other then
      some ⟨switchPair c target r.state a b, r.log ++ [(a, b)]⟩
    else none

def run (target : Slot) (r : Run ι κ) (as : List ι) : Option (Run ι κ) :=
  as.foldlM (step c p target) r

variable {c p}

theorem pairSlot_eq_some {x y : κ} {slot : Slot} :
    pairSlot c x y = some slot ↔
      c.active x = decide (slot = .a) ∧ c.active y = decide (slot = .b) := by
  unfold pairSlot
  cases c.active x <;> cases c.active y <;> cases slot <;> simp

theorem pairSlot_of_idle {x y : κ} (h : Idle c x y) : pairSlot c x y = none := by
  simp [pairSlot, h.1, h.2]

theorem run_cons (target : Slot) (r : Run ι κ) (a : ι) (as : List ι) :
    run c p target r (a :: as) = (step c p target r a).bind (fun r' => run c p target r' as) := rfl

/-- What a step does: nothing without a partner or on an idle pair, else it switches. -/
theorem step_cases {target : Slot} {r r' : Run ι κ} {a : ι} (h : step c p target r a = some r') :
    (p.partner a = none ∧ r' = r) ∨
    (∃ b, p.partner a = some b ∧ p.sound a b = true ∧ Idle c (r.state a) (r.state b) ∧ r' = r) ∨
    (∃ b, p.partner a = some b ∧ p.sound a b = true ∧
      pairSlot c (r.state a) (r.state b) = some target.other ∧
      r' = ⟨switchPair c target r.state a b, r.log ++ [(a, b)]⟩) := by
  unfold step at h
  cases hp : p.partner a with
  | none =>
    rw [hp] at h
    cases h
    exact Or.inl ⟨rfl, rfl⟩
  | some b =>
    rw [hp] at h
    dsimp only at h
    split_ifs at h with hs hi hslot
    · cases h
      exact Or.inr (Or.inl ⟨b, rfl, by simpa using hs, hi, rfl⟩)
    · cases h
      exact Or.inr (Or.inr ⟨b, rfl, by simpa using hs, hslot, rfl⟩)

section Lookup

variable {target : Slot} {s : ι → κ} {a b x : ι}

theorem switchPair_fst (h : a ≠ b) :
    switchPair c target s a b a = c.put (s a) (c.kind (s b)) (decide (target = .a)) := by
  rw [switchPair, Function.update_of_ne h, Function.update_self]

theorem switchPair_snd :
    switchPair c target s a b b = c.put (s b) (c.kind (s a)) (decide (target = .b)) := by
  rw [switchPair, Function.update_self]

theorem switchPair_of_ne (ha : x ≠ a) (hb : x ≠ b) : switchPair c target s a b x = s x := by
  rw [switchPair, Function.update_of_ne hb, Function.update_of_ne ha]

end Lookup

/-- The visited indices are first cells only: none of them is a partner. -/
structure Sided (p : Pairing ι) (as : List ι) : Prop where
  nodup : as.Nodup
  partner_not_mem : ∀ a ∈ as, ∀ b, p.partner a = some b → b ∉ as

omit [DecidableEq ι] in
theorem Sided.tail {a : ι} {as : List ι} (h : Sided p (a :: as)) : Sided p as :=
  ⟨(List.nodup_cons.mp h.nodup).2, fun a' ha' b hb hmem =>
    h.partner_not_mem a' (List.mem_cons_of_mem _ ha') b hb (List.mem_cons_of_mem _ hmem)⟩

omit [DecidableEq ι] in
theorem Sided.ne {a b : ι} {as : List ι} (h : Sided p as) (ha : a ∈ as)
    (hb : p.partner a = some b) : a ≠ b := by
  intro he
  subst he
  exact h.partner_not_mem a ha a hb ha

theorem step_of_ne {target : Slot} {r r' : Run ι κ} {a x : ι}
    (h : step c p target r a = some r') (ha : x ≠ a) (hb : p.partner a ≠ some x) :
    r'.state x = r.state x := by
  rcases step_cases h with ⟨-, rfl⟩ | ⟨b, -, -, -, rfl⟩ | ⟨b, hp, -, -, rfl⟩
  · rfl
  · rfl
  · exact switchPair_of_ne ha (fun he => hb (he ▸ hp))

/-- A cell that is neither visited nor a partner of a visited one keeps its contents. -/
theorem run_of_not_mem {target : Slot} {r r' : Run ι κ} {as : List ι} {x : ι}
    (h : run c p target r as = some r') (hx : x ∉ as) (hp : ∀ a ∈ as, p.partner a ≠ some x) :
    r'.state x = r.state x := by
  induction as generalizing r with
  | nil =>
    cases h
    rfl
  | cons a as ih =>
    rw [run_cons] at h
    obtain ⟨r₁, hstep, hrun⟩ := Option.bind_eq_some_iff.mp h
    rw [List.mem_cons, not_or] at hx
    have htail := ih hrun hx.2 (fun a' ha' => hp a' (List.mem_cons_of_mem _ ha'))
    rw [htail, step_of_ne hstep hx.1 (hp a List.mem_cons_self)]

/-- A visited cell without a partner keeps its contents. -/
theorem run_of_partner_none {target : Slot} {r r' : Run ι κ} {as : List ι} {x : ι}
    (h : run c p target r as = some r') (hs : Sided p as) (hx : x ∈ as)
    (hnone : p.partner x = none) : r'.state x = r.state x := by
  induction as generalizing r with
  | nil => cases hx
  | cons a as ih =>
    rw [run_cons] at h
    obtain ⟨r₁, hstep, hrun⟩ := Option.bind_eq_some_iff.mp h
    have hpartner : p.partner a ≠ some x :=
      fun hp => hs.partner_not_mem a List.mem_cons_self x hp hx
    by_cases hxa : x = a
    · subst hxa
      have hnot := (List.nodup_cons.mp hs.nodup).1
      have hkeep : r₁.state x = r.state x := by
        rcases step_cases hstep with ⟨-, rfl⟩ | ⟨b, hb, -⟩ | ⟨b, hb, -⟩
        · rfl
        · rw [hnone] at hb
          cases hb
        · rw [hnone] at hb
          cases hb
      rw [← hkeep]
      refine run_of_not_mem hrun hnot (fun a' ha' hp => ?_)
      exact hs.partner_not_mem a' (List.mem_cons_of_mem _ ha') x hp List.mem_cons_self
    · have hmem := (List.mem_cons.mp hx).resolve_left hxa
      rw [ih hrun hs.tail hmem, step_of_ne hstep hxa hpartner]

end SlotSwitch
