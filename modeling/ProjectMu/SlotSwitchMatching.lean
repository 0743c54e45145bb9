import ProjectMu.SlotSwitchShared
import Mathlib.Logic.Equiv.Basic

/-!
# The switched pairs are a matching

Where several pairs share a second cell, at most one of them is switched: a switch leaves the
activity of the cell in the state in which the next attempt finds nothing to leave. So the kinds
are exchanged along a matching, and no kind is lost.
-/

namespace SlotSwitch

variable {ι κ γ : Type*} [DecidableEq ι] {c : Access κ γ} {p : Pairing ι} {target : Slot}
  {r r' : Run ι κ} {as l : List ι} {s s' : ι → κ} {switched : List (ι × ι)} {x y : ι}

/-- Both cells of each pair. -/
def endpoints (pairs : List (ι × ι)) : List ι := pairs.flatMap fun q => [q.1, q.2]

omit [DecidableEq ι] in
theorem mem_endpoints {pairs : List (ι × ι)} :
    x ∈ endpoints pairs ↔ ∃ q ∈ pairs, x = q.1 ∨ x = q.2 := by
  simp [endpoints, List.mem_flatMap]

omit [DecidableEq ι] in
theorem endpoints_cons (q : ι × ι) (pairs : List (ι × ι)) :
    endpoints (q :: pairs) = q.1 :: q.2 :: endpoints pairs := rfl

/-- A run from `s` to `s'` over `as` that switches the given pairs, each cell at most once. -/
structure SwitchesOnce (c : Access κ γ) (p : Pairing ι) (target : Slot) (s s' : ι → κ)
    (as : List ι) (switched : List (ι × ι)) : Prop where
  visited : (switched.map Prod.fst).Sublist as
  partner : ∀ q ∈ switched, p.partner q.1 = some q.2
  left : ∀ q ∈ switched, c.active (s q.2) = decide (target = .a)
  nodup : (endpoints switched).Nodup
  exchanged : ∀ q ∈ switched, c.kind (s' q.1) = c.kind (s q.2) ∧ c.kind (s' q.2) = c.kind (s q.1)
  kept : ∀ x, x ∉ endpoints switched → s' x = s x

omit [DecidableEq ι] in
theorem SwitchesOnce.nil (c : Access κ γ) (p : Pairing ι) (target : Slot) (s : ι → κ) :
    SwitchesOnce c p target s s [] [] where
  visited := List.Sublist.refl _
  partner _ h := absurd h List.not_mem_nil
  left _ h := absurd h List.not_mem_nil
  nodup := List.nodup_nil
  exchanged _ h := absurd h List.not_mem_nil
  kept _ _ := rfl

omit [DecidableEq ι] in
theorem SwitchesOnce.skip (h : SwitchesOnce c p target s s' as switched) (x : ι) :
    SwitchesOnce c p target s s' (x :: as) switched :=
  { h with visited := h.visited.cons x }

/-- The cells of a switched pair are in no later one. The second cell would have to be active
where it is to be left. -/
theorem SwitchesOnce.not_mem_endpoints (hsided : Sided p (x :: as)) (hy : p.partner x = some y)
    (h : SwitchesOnce c p target (switchPair c target s x y) s' as switched) :
    x ∉ endpoints switched ∧ y ∉ endpoints switched := by
  have hvisited {q : ι × ι} (hq : q ∈ switched) : q.1 ∈ as :=
    h.visited.subset (List.mem_map_of_mem hq)
  constructor
  · intro hmem
    obtain ⟨q, hq, rfl | rfl⟩ := mem_endpoints.mp hmem
    · exact (List.nodup_cons.mp hsided.nodup).1 (hvisited hq)
    · exact hsided.partner_not_mem q.1 (List.mem_cons_of_mem _ (hvisited hq)) q.2 (h.partner q hq)
        List.mem_cons_self
  · intro hmem
    obtain ⟨q, hq, rfl | rfl⟩ := mem_endpoints.mp hmem
    · exact hsided.partner_not_mem x List.mem_cons_self q.1 hy
        (List.mem_cons_of_mem _ (hvisited hq))
    · have hleft := h.left q hq
      rw [switchPair_snd, c.active_put] at hleft
      cases target <;> cases hleft

/-- A switched pair in front of the rest of a run. -/
theorem SwitchesOnce.switch (hsided : Sided p (x :: as)) (hy : p.partner x = some y)
    (hleft : c.active (s y) = decide (target = .a))
    (h : SwitchesOnce c p target (switchPair c target s x y) s' as switched) :
    SwitchesOnce c p target s s' (x :: as) ((x, y) :: switched) := by
  obtain ⟨hx, hy'⟩ := h.not_mem_endpoints hsided hy
  have hne := hsided.ne List.mem_cons_self hy
  have hends {q : ι × ι} (hq : q ∈ switched) : q.1 ∈ endpoints switched ∧
      q.2 ∈ endpoints switched :=
    ⟨mem_endpoints.mpr ⟨q, hq, .inl rfl⟩, mem_endpoints.mpr ⟨q, hq, .inr rfl⟩⟩
  have hkeep {z : ι} (hz : z ∈ endpoints switched) : switchPair c target s x y z = s z :=
    switchPair_of_ne (ne_of_mem_of_not_mem hz hx) (ne_of_mem_of_not_mem hz hy')
  constructor
  · exact h.visited.cons_cons x
  · exact List.forall_mem_cons.mpr ⟨hy, h.partner⟩
  · refine List.forall_mem_cons.mpr ⟨hleft, fun q hq => ?_⟩
    rw [← hkeep (hends hq).2]
    exact h.left q hq
  · rw [endpoints_cons, List.nodup_cons, List.nodup_cons]
    refine ⟨fun hmem => ?_, hy', h.nodup⟩
    exact (List.mem_cons.mp hmem).elim hne hx
  · refine List.forall_mem_cons.mpr ⟨⟨?_, ?_⟩, fun q hq => ?_⟩
    · rw [h.kept x hx, switchPair_fst hne, c.kind_put]
    · rw [h.kept y hy', switchPair_snd, c.kind_put]
    · rw [← hkeep (hends hq).1, ← hkeep (hends hq).2]
      exact h.exchanged q hq
  · intro z hz
    rw [endpoints_cons, List.mem_cons, List.mem_cons, not_or, not_or] at hz
    rw [h.kept z hz.2.2, switchPair_of_ne hz.1 hz.2.1]

/-- A run switches each cell at most once. -/
theorem run_switchesOnce (hsided : Sided p as) (hrun : run c p target r as = some r') :
    ∃ switched, r'.log = r.log ++ switched ∧
      SwitchesOnce c p target r.state r'.state as switched := by
  induction as generalizing r with
  | nil =>
    cases hrun
    exact ⟨[], (List.append_nil _).symm, .nil c p target _⟩
  | cons x as ih =>
    rw [run_cons] at hrun
    obtain ⟨r₁, hstep, htail⟩ := Option.bind_eq_some_iff.mp hrun
    obtain ⟨switched, hlog, hrest⟩ := ih hsided.tail htail
    rcases step_cases hstep with ⟨-, rfl⟩ | ⟨y, -, -, -, rfl⟩ | ⟨y, hy, -, hlive, rfl⟩
    · exact ⟨switched, hlog, hrest.skip x⟩
    · exact ⟨switched, hlog, hrest.skip x⟩
    · have hleft : c.active (r.state y) = decide (target = .a) := by
        rw [(pairSlot_eq_some.mp hlive).2]
        cases target <;> rfl
      refine ⟨(x, y) :: switched, ?_, hrest.switch hsided hy hleft⟩
      rw [hlog, List.append_assoc]
      rfl

/-- A switch permutes the kinds of a list of cells that has both cells of the pair once. -/
theorem map_kind_switchPair (hnodup : l.Nodup) (hx : x ∈ l) (hy : y ∈ l) (hne : x ≠ y)
    (s : ι → κ) : (l.map fun z => c.kind (switchPair c target s x y z)).Perm
      (l.map fun z => c.kind (s z)) := by
  have hswap : (fun z => c.kind (switchPair c target s x y z)) =
      (fun z => c.kind (s z)) ∘ Equiv.swap x y := by
    funext z
    rw [Function.comp_apply]
    by_cases hzx : z = x
    · rw [hzx, Equiv.swap_apply_left, switchPair_fst hne, c.kind_put]
    · by_cases hzy : z = y
      · rw [hzy, Equiv.swap_apply_right, switchPair_snd, c.kind_put]
      · rw [Equiv.swap_apply_of_ne_of_ne hzx hzy, switchPair_of_ne hzx hzy]
  have hclosed {z : ι} (hz : z ∈ l) : Equiv.swap x y z ∈ l := by
    rw [Equiv.swap_apply_def]
    split_ifs
    · exact hy
    · exact hx
    · exact hz
  have hperm : (l.map (Equiv.swap x y)).Perm l := by
    refine (List.perm_ext_iff_of_nodup (hnodup.map (Equiv.swap x y).injective) hnodup).mpr ?_
    intro z
    rw [List.mem_map]
    constructor
    · rintro ⟨w, hw, rfl⟩
      exact hclosed hw
    · intro hz
      exact ⟨Equiv.swap x y z, hclosed hz, Equiv.swap_apply_self x y z⟩
  rw [hswap, ← List.map_map]
  exact hperm.map _

/-- A run permutes the kinds of the cells that it may switch. -/
theorem run_kinds (hsided : Sided p as) (hrun : run c p target r as = some r')
    (hnodup : l.Nodup) (hmem : ∀ a ∈ as, ∀ b, p.partner a = some b → a ∈ l ∧ b ∈ l) :
    (l.map fun z => c.kind (r'.state z)).Perm (l.map fun z => c.kind (r.state z)) := by
  induction as generalizing r with
  | nil =>
    cases hrun
    exact List.Perm.refl _
  | cons x as ih =>
    rw [run_cons] at hrun
    obtain ⟨r₁, hstep, htail⟩ := Option.bind_eq_some_iff.mp hrun
    obtain ⟨hfirst, hothers⟩ := List.forall_mem_cons.mp hmem
    refine (ih hsided.tail htail hothers).trans ?_
    rcases step_cases hstep with ⟨-, rfl⟩ | ⟨y, -, -, -, rfl⟩ | ⟨y, hy, -, -, rfl⟩
    · exact List.Perm.refl _
    · exact List.Perm.refl _
    · exact map_kind_switchPair hnodup (hfirst y hy).1 (hfirst y hy).2
        (hsided.ne List.mem_cons_self hy) r.state

end SlotSwitch
