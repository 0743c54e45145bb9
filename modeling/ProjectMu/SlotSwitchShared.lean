import ProjectMu.SlotSwitch

/-!
# Runs in which several pairs share a second cell

Several visited indices may have the same partner. What a successful run leaves then
depends on the direction. A run to the second slot activates every partner of an active
cell. A run to the first slot gives the activity of a partner to the first index that
names it, and the others stay inactive.
-/

namespace SlotSwitch

variable {ι κ γ : Type*} [DecidableEq ι] {c : Access κ γ} {p : Pairing ι} {target : Slot}
  {r r' : Run ι κ} {as : List ι}

/-- The rest of a run does not change a first cell that was visited. -/
theorem Sided.run_head {x : ι} (h : Sided p (x :: as)) (hrun : run c p target r as = some r') :
    r'.state x = r.state x := by
  refine run_of_not_mem hrun (List.nodup_cons.mp h.nodup).1 ?_
  intro a ha hp
  exact h.partner_not_mem a (List.mem_cons_of_mem _ ha) x hp List.mem_cons_self

theorem Sided.run_partner {x y : ι} (h : Sided p (x :: as)) (hy : p.partner x = some y)
    (hrun : run c p target r as = some r') (hnone : ∀ a ∈ as, p.partner a ≠ some y) :
    r'.state y = r.state y := by
  refine run_of_not_mem hrun ?_ hnone
  intro hmem
  exact h.partner_not_mem x List.mem_cons_self y hy (List.mem_cons_of_mem _ hmem)

theorem Sided.switch_tail {x y a : ι} (h : Sided p (x :: as)) (hy : p.partner x = some y)
    (ha : a ∈ as) (s : ι → κ) : switchPair c target s x y a = s a := by
  refine switchPair_of_ne ?_ ?_
  · intro he
    exact (List.nodup_cons.mp h.nodup).1 (he ▸ ha)
  · intro he
    exact h.partner_not_mem x List.mem_cons_self y hy (he ▸ List.mem_cons_of_mem _ ha)

theorem Sided.switch_partner {x y a b : ι} (h : Sided p (x :: as)) (ha : a ∈ as)
    (hb : p.partner a = some b) (hne : b ≠ y) (s : ι → κ) :
    switchPair c target s x y b = s b := by
  refine switchPair_of_ne ?_ hne
  intro he
  exact h.partner_not_mem a (List.mem_cons_of_mem _ ha) b hb (he ▸ List.mem_cons_self)

/-- A partner that the head of the list leaves inactive ends inactive, if it does wherever a
later index names it. -/
theorem Sided.run_partner_inactive {x y : ι} (h : Sided p (x :: as)) (hy : p.partner x = some y)
    (hrun : run c p target r as = some r') (hstate : c.active (r.state y) = false)
    (hlater : ∀ a ∈ as, p.partner a = some y → c.active (r'.state y) = false) :
    c.active (r'.state y) = false := by
  by_cases hsome : ∃ a ∈ as, p.partner a = some y
  · obtain ⟨a, ha, hp⟩ := hsome
    exact hlater a ha hp
  · rw [h.run_partner hy hrun (fun a ha hp => hsome ⟨a, ha, hp⟩)]
    exact hstate

theorem run_to_b (h : Sided p as) (hrun : run c p .b r as = some r') :
    ∀ a ∈ as, ∀ b, p.partner a = some b → c.active (r.state b) = false ∧
      c.active (r'.state a) = false ∧
      (c.active (r.state a) = true → c.active (r'.state b) = true) := by
  induction as generalizing r with
  | nil => exact fun a ha => absurd ha List.not_mem_nil
  | cons x as ih =>
    rw [run_cons] at hrun
    obtain ⟨r₁, hstep, htail⟩ := Option.bind_eq_some_iff.mp hrun
    have hhead := h.run_head htail
    have hrest := ih h.tail htail
    intro a ha b hb
    rcases step_cases hstep with ⟨hx, rfl⟩ | ⟨y, hx, -, hi, rfl⟩ | ⟨y, hx, -, hl, rfl⟩
    · rcases List.mem_cons.mp ha with rfl | hmem
      · rw [hx] at hb
        cases hb
      · exact hrest a hmem b hb
    · rcases List.mem_cons.mp ha with rfl | hmem
      · cases hx.symm.trans hb
        refine ⟨hi.2, by rw [hhead, hi.1], fun hact => ?_⟩
        rw [hi.1] at hact
        cases hact
      · exact hrest a hmem b hb
    · obtain ⟨hactx, hacty⟩ := pairSlot_eq_some.mp hl
      have hne := h.ne List.mem_cons_self hx
      have hy : c.active (switchPair c .b r.state x y y) = true := by
        rw [switchPair_snd, c.active_put]
        rfl
      rcases List.mem_cons.mp ha with rfl | hmem
      · cases hx.symm.trans hb
        refine ⟨hacty, ?_, fun _ => ?_⟩
        · rw [hhead]
          exact (congrArg c.active (switchPair_fst hne)).trans (c.active_put _ _ _)
        · rw [h.run_partner hx htail]
          · exact hy
          -- A later pair with the same partner would have found it inactive.
          · intro a' ha' hp'
            have hinactive := (hrest a' ha' b hp').1
            change c.active (switchPair c .b r.state a b b) = false at hinactive
            rw [hy] at hinactive
            cases hinactive
      · obtain ⟨hb₁, ha', hact⟩ := hrest a hmem b hb
        change c.active (switchPair c .b r.state x y b) = false at hb₁
        change c.active (switchPair c .b r.state x y a) = true → _ at hact
        have hby : b ≠ y := by
          rintro rfl
          rw [hy] at hb₁
          cases hb₁
        rw [h.switch_partner hmem hb hby] at hb₁
        rw [h.switch_tail hx hmem] at hact
        exact ⟨hb₁, ha', hact⟩

theorem run_to_a (h : Sided p as) (hrun : run c p .a r as = some r') :
    ∀ a ∈ as, ∀ b, p.partner a = some b → c.active (r.state a) = false ∧
      c.active (r'.state b) = false ∧
      (c.active (r'.state a) = true ↔
        c.active (r.state b) = true ∧ as.find? (fun x => p.partner x = some b) = some a) := by
  induction as generalizing r with
  | nil => exact fun a ha => absurd ha List.not_mem_nil
  | cons x as ih =>
    rw [run_cons] at hrun
    obtain ⟨r₁, hstep, htail⟩ := Option.bind_eq_some_iff.mp hrun
    have hhead := h.run_head htail
    have hrest := ih h.tail htail
    have hnot := (List.nodup_cons.mp h.nodup).1
    intro a ha b hb
    rcases step_cases hstep with ⟨hx, rfl⟩ | ⟨y, hx, -, hi, rfl⟩ | ⟨y, hx, -, hl, rfl⟩
    · rcases List.mem_cons.mp ha with rfl | hmem
      · rw [hx] at hb
        cases hb
      · rw [List.find?_cons_of_neg (by simp [hx])]
        exact hrest a hmem b hb
    · rcases List.mem_cons.mp ha with rfl | hmem
      · cases hx.symm.trans hb
        have hlater := h.run_partner_inactive hx htail hi.2
          (fun a' ha' hp' => (hrest a' ha' b hp').2.1)
        refine ⟨hi.1, hlater, ?_⟩
        rw [hhead, hi.1, hi.2]
        simp
      · obtain ⟨ha₁, hb', hiff⟩ := hrest a hmem b hb
        refine ⟨ha₁, hb', ?_⟩
        by_cases hyb : y = b
        · subst hyb
          rw [hiff, hi.2]
          simp
        · rw [List.find?_cons_of_neg (by simp [hx, hyb])]
          exact hiff
    · obtain ⟨hactx, hacty⟩ := pairSlot_eq_some.mp hl
      have hne := h.ne List.mem_cons_self hx
      have hy : c.active (switchPair c .a r.state x y y) = false := by
        rw [switchPair_snd, c.active_put]
        rfl
      rcases List.mem_cons.mp ha with rfl | hmem
      · cases hx.symm.trans hb
        have hlater := h.run_partner_inactive hx htail hy
          (fun a' ha' hp' => (hrest a' ha' b hp').2.1)
        have hactive : c.active (r'.state a) = true := by
          rw [hhead]
          exact (congrArg c.active (switchPair_fst hne)).trans (c.active_put _ _ _)
        refine ⟨hactx, hlater, ?_⟩
        rw [List.find?_cons_of_pos (by simp [hx])]
        exact iff_of_true hactive ⟨hacty, rfl⟩
      · obtain ⟨ha₁, hb', hiff⟩ := hrest a hmem b hb
        change c.active (switchPair c .a r.state x y a) = false at ha₁
        change _ ↔ c.active (switchPair c .a r.state x y b) = true ∧ _ at hiff
        rw [h.switch_tail hx hmem] at ha₁
        refine ⟨ha₁, hb', ?_⟩
        by_cases hyb : y = b
        -- The partner has been left by the head of the list, so later pairs find it idle.
        · subst hyb
          rw [List.find?_cons_of_pos (by simp [hx]), hiff, hy]
          refine iff_of_false (fun hf => Bool.false_ne_true hf.1) (fun hf => hnot ?_)
          exact Option.some.inj hf.2 ▸ hmem
        · rw [List.find?_cons_of_neg (by simp [hx, hyb]), hiff,
            h.switch_partner hmem hb (Ne.symm hyb)]

end SlotSwitch
