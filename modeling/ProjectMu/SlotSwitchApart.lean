import ProjectMu.SlotSwitch

/-!
# Runs over pairs that share no cell

When no two visited indices have the same partner, every pair is switched on its own: a
run succeeds exactly when each pair is idle or active on the slot to be left, and its
result is that of the single pairs. A run back to the old slot then restores every cell.
-/

namespace SlotSwitch

variable {ι κ γ : Type*} [DecidableEq ι] {c : Access κ γ} {p : Pairing ι} {target : Slot}
  {r r' : Run ι κ} {as : List ι}

structure Apart (p : Pairing ι) (as : List ι) : Prop extends Sided p as where
  partner_inj : ∀ a ∈ as, ∀ a' ∈ as, ∀ b, p.partner a = some b → p.partner a' = some b → a = a'

omit [DecidableEq ι] in
theorem Apart.tail {a : ι} (h : Apart p (a :: as)) : Apart p as :=
  ⟨h.toSided.tail, fun x hx y hy =>
    h.partner_inj x (List.mem_cons_of_mem _ hx) y (List.mem_cons_of_mem _ hy)⟩

omit [DecidableEq ι] in
/-- The first pair of the list has no cell in common with the others. -/
theorem Apart.head_apart {a b a' b' : ι} (h : Apart p (a :: as)) (hb : p.partner a = some b)
    (ha' : a' ∈ as) (hb' : p.partner a' = some b') : a' ≠ a ∧ a' ≠ b ∧ b' ≠ a ∧ b' ≠ b := by
  have hmem : a' ∈ a :: as := List.mem_cons_of_mem _ ha'
  have hnot : a ∉ as := (List.nodup_cons.mp h.nodup).1
  refine ⟨?_, ?_, ?_, ?_⟩
  · intro he
    exact hnot (he ▸ ha')
  · intro he
    exact h.partner_not_mem a List.mem_cons_self b hb (he ▸ hmem)
  · intro he
    exact h.partner_not_mem a' hmem b' hb' (he ▸ List.mem_cons_self)
  · intro he
    subst he
    exact hnot (h.partner_inj a List.mem_cons_self a' hmem b' hb hb' ▸ ha')

/-- A pair that a step may pass. -/
def Passable (c : Access κ γ) (p : Pairing ι) (target : Slot) (s : ι → κ) (a b : ι) : Prop :=
  p.sound a b = true ∧ (Idle c (s a) (s b) ∨ pairSlot c (s a) (s b) = some target.other)

theorem step_of_partner {a b : ι} (hb : p.partner a = some b) :
    step c p target r a = some r' ↔ p.sound a b = true ∧
      (Idle c (r.state a) (r.state b) ∧ r' = r ∨
        pairSlot c (r.state a) (r.state b) = some target.other ∧
          r' = ⟨switchPair c target r.state a b, r.log ++ [(a, b)]⟩) := by
  unfold step
  rw [hb]
  dsimp only
  by_cases hs : p.sound a b = true
  · rw [if_neg (by simp [hs])]
    by_cases hi : Idle c (r.state a) (r.state b)
    · rw [if_pos hi, pairSlot_of_idle hi]
      simp [hs, hi, eq_comm]
    · by_cases hl : pairSlot c (r.state a) (r.state b) = some target.other
      · simp [hs, hi, hl, eq_comm]
      · simp [hi, hl]
  · simp [hs]

/-- The first step leaves every later pair alone. -/
theorem Apart.step_tail {x a b : ι} (h : Apart p (x :: as)) (hstep : step c p target r x = some r')
    (ha : a ∈ as) (hb : p.partner a = some b) :
    r'.state a = r.state a ∧ r'.state b = r.state b := by
  have hxa : a ≠ x := fun he => (List.nodup_cons.mp h.nodup).1 (he ▸ ha)
  have hxb : b ≠ x := fun he =>
    h.partner_not_mem a (List.mem_cons_of_mem _ ha) b hb (he ▸ List.mem_cons_self)
  refine ⟨step_of_ne hstep hxa ?_, step_of_ne hstep hxb ?_⟩
  · intro hp
    exact (h.head_apart hp ha hb).2.1 rfl
  · intro hp
    exact (h.head_apart hp ha hb).2.2.2 rfl

/-- What a run makes of one pair depends on that pair only. -/
theorem run_pair (h : Apart p as) (hrun : run c p target r as = some r') {a b : ι} (ha : a ∈ as)
    (hb : p.partner a = some b) :
    Passable c p target r.state a b ∧
      (Idle c (r.state a) (r.state b) ∧ r'.state a = r.state a ∧ r'.state b = r.state b ∨
        pairSlot c (r.state a) (r.state b) = some target.other ∧
        r'.state a = c.put (r.state a) (c.kind (r.state b)) (decide (target = .a)) ∧
        r'.state b = c.put (r.state b) (c.kind (r.state a)) (decide (target = .b))) := by
  induction as generalizing r with
  | nil => cases ha
  | cons x as ih =>
    rw [run_cons] at hrun
    obtain ⟨r₁, hstep, htail⟩ := Option.bind_eq_some_iff.mp hrun
    rcases List.mem_cons.mp ha with rfl | hmem
    · have hne := h.toSided.ne List.mem_cons_self hb
      have hkeepa : r'.state a = r₁.state a := by
        refine run_of_not_mem htail (List.nodup_cons.mp h.nodup).1 ?_
        intro a' ha' hp'
        exact (h.head_apart hb ha' hp').2.2.1 rfl
      have hkeepb : r'.state b = r₁.state b := by
        refine run_of_not_mem htail ?_ ?_
        · intro hmem
          exact h.partner_not_mem a List.mem_cons_self b hb (List.mem_cons_of_mem _ hmem)
        · intro a' ha' hp'
          exact (h.head_apart hb ha' hp').2.2.2 rfl
      obtain ⟨hs, ⟨hi, rfl⟩ | ⟨hl, rfl⟩⟩ := (step_of_partner hb).mp hstep
      · exact ⟨⟨hs, Or.inl hi⟩, Or.inl ⟨hi, hkeepa, hkeepb⟩⟩
      · refine ⟨⟨hs, Or.inr hl⟩, Or.inr ⟨hl, ?_, ?_⟩⟩
        · exact hkeepa.trans (switchPair_fst hne)
        · exact hkeepb.trans switchPair_snd
    · obtain ⟨ha₁, hb₁⟩ := h.step_tail hstep hmem hb
      have hres := ih h.tail htail hmem
      unfold Passable at hres ⊢
      rwa [ha₁, hb₁] at hres

theorem run_isSome (h : Apart p as)
    (hpass : ∀ a ∈ as, ∀ b, p.partner a = some b → Passable c p target r.state a b) :
    ∃ r', run c p target r as = some r' := by
  induction as generalizing r with
  | nil => exact ⟨r, rfl⟩
  | cons x as ih =>
    have hstep : ∃ r₁, step c p target r x = some r₁ := by
      cases hx : p.partner x with
      | none => exact ⟨r, by simp [step, hx]⟩
      | some y =>
        obtain ⟨hs, hi | hl⟩ := hpass x List.mem_cons_self y hx
        · exact ⟨r, (step_of_partner hx).mpr ⟨hs, Or.inl ⟨hi, rfl⟩⟩⟩
        · exact ⟨_, (step_of_partner hx).mpr ⟨hs, Or.inr ⟨hl, rfl⟩⟩⟩
    obtain ⟨r₁, hstep⟩ := hstep
    obtain ⟨r', hrun⟩ := @ih r₁ h.tail (by
      intro a ha b hb
      have hpa := hpass a (List.mem_cons_of_mem _ ha) b hb
      obtain ⟨ha₁, hb₁⟩ := h.step_tail hstep ha hb
      unfold Passable at hpa ⊢
      rwa [ha₁, hb₁])
    refine ⟨r', ?_⟩
    rw [run_cons, hstep]
    exact hrun

/-- Every pair shows the target slot after a run if it showed a slot before. -/
theorem observe_run (h : Apart p as) (hrun : run c p target r as = some r') {a : ι}
    (ha : a ∈ as) :
    observe c p r'.state a = (observe c p r.state a).map (fun _ => target) := by
  unfold observe
  cases hb : p.partner a with
  | none => rfl
  | some b =>
    obtain ⟨-, ⟨hi, hea, heb⟩ | ⟨hl, hea, heb⟩⟩ := run_pair h hrun ha hb
    · simp only [Option.bind_some, hea, heb, pairSlot_of_idle hi]
      rfl
    · simp only [Option.bind_some, hl, Option.map_some]
      rw [pairSlot_eq_some, hea, heb, c.active_put, c.active_put]
      exact ⟨rfl, rfl⟩

/-- The pairs of the list that show a slot, in order. -/
def livePairs (c : Access κ γ) (p : Pairing ι) (s : ι → κ) (as : List ι) : List (ι × ι) :=
  as.filterMap (fun a => (p.partner a).bind (fun b =>
    if (pairSlot c (s a) (s b)).isSome then some (a, b) else none))

omit [DecidableEq ι] in
theorem mem_livePairs {s : ι → κ} {a b : ι} :
    (a, b) ∈ livePairs c p s as ↔
      a ∈ as ∧ p.partner a = some b ∧ (pairSlot c (s a) (s b)).isSome = true := by
  simp only [livePairs, List.mem_filterMap, Option.bind_eq_some_iff, Option.ite_none_right_eq_some,
    Option.some.injEq, Prod.mk.injEq]
  constructor
  · rintro ⟨x, hx, y, hy, hlive, rfl, rfl⟩
    exact ⟨hx, hy, hlive⟩
  · rintro ⟨ha, hb, hlive⟩
    exact ⟨a, ha, b, hb, hlive, rfl, rfl⟩

omit [DecidableEq ι] in
theorem livePairs_congr {s s' : ι → κ}
    (h : ∀ a ∈ as, (observe c p s a).isSome = (observe c p s' a).isSome) :
    livePairs c p s as = livePairs c p s' as := by
  apply List.filterMap_congr
  intro a ha
  have hobs := h a ha
  unfold observe at hobs
  cases hb : p.partner a with
  | none => rfl
  | some b =>
    simp only [hb, Option.bind_some] at hobs ⊢
    rw [hobs]

theorem run_log (h : Apart p as) (hrun : run c p target r as = some r') :
    r'.log = r.log ++ livePairs c p r.state as := by
  induction as generalizing r with
  | nil =>
    cases hrun
    simp [livePairs]
  | cons x as ih =>
    rw [run_cons] at hrun
    obtain ⟨r₁, hstep, htail⟩ := Option.bind_eq_some_iff.mp hrun
    have hlive : livePairs c p r₁.state as = livePairs c p r.state as := by
      apply livePairs_congr
      intro a ha
      unfold observe
      cases hb : p.partner a with
      | none => rfl
      | some b =>
        obtain ⟨ha₁, hb₁⟩ := h.step_tail hstep ha hb
        simp only [Option.bind_some, ha₁, hb₁]
    rw [ih h.tail htail, hlive]
    rcases step_cases hstep with ⟨hx, rfl⟩ | ⟨y, hx, -, hi, rfl⟩ | ⟨y, hx, -, hl, rfl⟩
    · simp [livePairs, hx]
    · simp [livePairs, hx, pairSlot_of_idle hi]
    · simp [livePairs, hx, hl]

/-- A run to the target and a run back succeed on the same pairs, and the second one
puts the kind and the activity of every cell back. -/
theorem run_back (h : Apart p as) (hrun : run c p target r as = some r') (log : List (ι × ι)) :
    ∃ r'', run c p target.other ⟨r'.state, log⟩ as = some r'' ∧
      r''.log = log ++ livePairs c p r.state as ∧
      ∀ a ∈ as, ∀ b, p.partner a = some b → ∀ x ∈ [a, b],
        r''.state x = r.state x ∨
          r''.state x = c.put (r.state x) (c.kind (r.state x)) (c.active (r.state x)) := by
  have hpass : ∀ a ∈ as, ∀ b, p.partner a = some b →
      Passable c p target.other r'.state a b := by
    intro a ha b hb
    obtain ⟨⟨hs, -⟩, ⟨hi, hea, heb⟩ | ⟨hl, hea, heb⟩⟩ := run_pair h hrun ha hb
    · refine ⟨hs, Or.inl ?_⟩
      rwa [hea, heb]
    · refine ⟨hs, Or.inr ?_⟩
      rw [Slot.other_other, pairSlot_eq_some, hea, heb, c.active_put, c.active_put]
      exact ⟨rfl, rfl⟩
  obtain ⟨r'', hback⟩ := run_isSome (r := ⟨r'.state, log⟩) h hpass
  refine ⟨r'', hback, ?_, ?_⟩
  · rw [run_log h hback]
    congr 1
    apply livePairs_congr
    intro a ha
    rw [observe_run h hrun ha, Option.isSome_map]
  · intro a ha b hb x hx
    obtain ⟨-, ⟨hi, hea, heb⟩ | ⟨hl, hea, heb⟩⟩ := run_pair h hrun ha hb
    · obtain ⟨-, ⟨-, hea', heb'⟩ | ⟨hl', -⟩⟩ := run_pair h hback ha hb
      · left
        rcases List.mem_pair.mp hx with rfl | rfl
        · exact hea'.trans hea
        · exact heb'.trans heb
      · change pairSlot c (r'.state a) (r'.state b) = _ at hl'
        rw [hea, heb, pairSlot_of_idle hi] at hl'
        cases hl'
    · obtain ⟨-, ⟨hi', -⟩ | ⟨-, hea', heb'⟩⟩ := run_pair h hback ha hb
      · have hidle := pairSlot_of_idle hi'
        change pairSlot c (r'.state a) (r'.state b) = none at hidle
        have hobs := observe_run h hrun ha
        simp only [observe, hb, Option.bind_some, hidle, hl, Option.map_some] at hobs
        cases hobs
      · right
        obtain ⟨hacta, hactb⟩ := pairSlot_eq_some.mp hl
        rcases List.mem_pair.mp hx with rfl | rfl
        · rw [hea', hacta]
          change c.put (r'.state _) (c.kind (r'.state _)) _ = _
          rw [hea, heb, c.kind_put, c.put_put]
        · rw [heb', hactb]
          change c.put (r'.state _) (c.kind (r'.state _)) _ = _
          rw [hea, heb, c.kind_put, c.put_put]

end SlotSwitch
