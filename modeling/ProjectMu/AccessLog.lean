import Mathlib.Tactic

/-!
# Computations that log their accesses

A `Logged` value comes with the list of accesses made on the way to it. `loop` repeats a step
until it is done, for a bounded number of rounds; the step gets the bound of its own loops. An
`Attempt` can also end early with an error; what it did before that stays in the log.
-/

namespace AccessLog

/-- A value with the accesses made on the way to it. -/
structure Logged (ι α : Type*) where
  value : α
  log : List ι

variable {ι α β σ : Type*}

instance : Monad (Logged ι) where
  pure a := ⟨a, []⟩
  bind x f := ⟨(f x.value).value, x.log ++ (f x.value).log⟩

def access (i : ι) (a : α) : Logged ι α := ⟨a, [i]⟩

@[simp] theorem value_pure (a : α) : (pure a : Logged ι α).value = a := rfl

@[simp] theorem log_pure (a : α) : (pure a : Logged ι α).log = [] := rfl

@[simp] theorem value_access (i : ι) (a : α) : (access i a).value = a := rfl

@[simp] theorem log_access (i : ι) (a : α) : (access i a).log = [i] := rfl

@[simp] theorem value_bind {α β : Type _} (x : Logged ι α) (f : α → Logged ι β) :
    (x >>= f).value = (f x.value).value := rfl

@[simp] theorem log_bind {α β : Type _} (x : Logged ι α) (f : α → Logged ι β) :
    (x >>= f).log = x.log ++ (f x.value).log := rfl

theorem access_bind {α β : Type _} (i : ι) (a : α) (f : α → Logged ι β) :
    access i a >>= f = ⟨(f a).value, i :: (f a).log⟩ := rfl

theorem bind_of_value {α β : Type _} {x : Logged ι α} {a : α} (h : x.value = a)
    (f : α → Logged ι β) : x >>= f = ⟨(f a).value, x.log ++ (f a).log⟩ := by
  subst h
  rfl

theorem bind_pure_eq {α β : Type _} (x : Logged ι α) (f : α → β) :
    (x >>= fun a => pure (f a)) = ⟨f x.value, x.log⟩ :=
  congrArg (Logged.mk (f x.value)) (List.append_nil x.log)

/-- All accesses have a property. -/
def Logged.Within (P : ι → Prop) (x : Logged ι α) : Prop := ∀ i ∈ x.log, P i

/-- The second condition is only looked at if the first one is false. -/
def Logged.or (x y : Logged ι Bool) : Logged ι Bool := x >>= fun b => if b then pure true else y

/-- The second condition is only looked at if the first one is true. -/
def Logged.and (x y : Logged ι Bool) : Logged ι Bool := x >>= fun b => if b then y else pure false

section Within

variable {P : ι → Prop} {x y : Logged ι Bool}

@[simp] theorem Logged.within_pure (a : α) : (pure a : Logged ι α).Within P :=
  fun _ h => absurd h List.not_mem_nil

@[simp] theorem Logged.within_access {i : ι} {a : α} : (access i a).Within P ↔ P i := by
  simp [Logged.Within]

theorem Logged.within_bind {α β : Type _} {x : Logged ι α} {f : α → Logged ι β} :
    (x >>= f).Within P ↔ x.Within P ∧ (f x.value).Within P :=
  List.forall_mem_append

@[simp] theorem Logged.value_or : (x.or y).value = (x.value || y.value) := by
  rw [Logged.or, value_bind]
  cases x.value <;> rfl

@[simp] theorem Logged.value_and : (x.and y).value = (x.value && y.value) := by
  rw [Logged.and, value_bind]
  cases x.value <;> rfl

theorem Logged.within_or : (x.or y).Within P ↔ x.Within P ∧ (x.value = false → y.Within P) := by
  rw [Logged.or, Logged.within_bind]
  cases x.value <;> simp

theorem Logged.within_and : (x.and y).Within P ↔ x.Within P ∧ (x.value = true → y.Within P) := by
  rw [Logged.and, Logged.within_bind]
  cases x.value <;> simp

end Within

/-- A logged computation that may end with an error. -/
abbrev Attempt (ε ι : Type*) := ExceptT ε (Logged ι)

namespace Attempt

variable {ε ι α β : Type} {P : ι → Prop}

def result (x : Attempt ε ι α) : Except ε α := x.run.value

def Within (P : ι → Prop) (x : Attempt ε ι α) : Prop := x.run.Within P

def lift (x : Logged ι α) : Attempt ε ι α := ExceptT.mk (x >>= fun a => pure (.ok a))

/-- An access on the way. -/
def touch (i : ι) : Attempt ε ι Unit := lift (access i ())

@[simp] theorem result_pure (a : α) : (pure a : Attempt ε ι α).result = .ok a := rfl

@[simp] theorem result_throw (e : ε) : (throw e : Attempt ε ι α).result = .error e := rfl

@[simp] theorem result_touch (i : ι) : (touch i : Attempt ε ι Unit).result = .ok () := rfl

@[simp] theorem result_liftExcept (x : Except ε α) :
    (liftExcept x : Attempt ε ι α).result = x := by
  cases x <;> rfl

@[simp] theorem result_lift (x : Logged ι α) :
    (lift x : Attempt ε ι α).result = .ok x.value := rfl

theorem result_bind (x : Attempt ε ι α) (f : α → Attempt ε ι β) :
    (x >>= f).result = x.result.bind fun a => (f a).result := by
  change (x.run >>= ExceptT.bindCont f).value = _
  rw [value_bind, result]
  cases x.run.value <;> rfl

theorem result_ite (p : Prop) [Decidable p] (x y : Attempt ε ι α) :
    (if p then x else y).result = if p then x.result else y.result :=
  apply_ite result p x y

@[simp] theorem within_pure (a : α) : (pure a : Attempt ε ι α).Within P :=
  Logged.within_pure _

@[simp] theorem within_throw (e : ε) : (throw e : Attempt ε ι α).Within P :=
  Logged.within_pure _

@[simp] theorem within_liftExcept (x : Except ε α) :
    (liftExcept x : Attempt ε ι α).Within P := by
  cases x <;> exact Logged.within_pure _

@[simp] theorem within_lift {x : Logged ι α} :
    (lift x : Attempt ε ι α).Within P ↔ x.Within P :=
  Logged.within_bind.trans (and_iff_left (Logged.within_pure _))

@[simp] theorem within_touch {i : ι} : (touch i : Attempt ε ι Unit).Within P ↔ P i :=
  within_lift.trans Logged.within_access

theorem within_ite {p : Prop} [Decidable p] {x y : Attempt ε ι α} :
    (if p then x else y).Within P ↔ (p → x.Within P) ∧ (¬p → y.Within P) := by
  by_cases hp : p <;> simp [hp]

/-- A step has the property, and after each result so have the steps behind it. -/
theorem within_bind {x : Attempt ε ι α} {f : α → Attempt ε ι β} :
    (x >>= f).Within P ↔ x.Within P ∧ ∀ a, x.result = .ok a → (f a).Within P := by
  change (x.run >>= ExceptT.bindCont f).Within P ↔ _
  rw [Logged.within_bind, result]
  refine and_congr_right fun _ => ?_
  cases x.run.value with
  | error e => exact iff_of_true (Logged.within_pure _) fun _ h => nomatch h
  | ok a => exact ⟨fun h _ ha => Except.ok.inj ha ▸ h, fun h => h a rfl⟩

end Attempt

/-- What a round of a loop comes to. It is `out` where a loop inside it ran out of rounds. -/
inductive Next (σ α : Type*)
  | more (s : σ)
  | done (a : α)
  | out

def loop (step : ℕ → σ → Logged ι (Next σ α)) : ℕ → σ → Logged ι (Option α)
  | 0, _ => ⟨none, []⟩
  | n + 1, s =>
    match (step n s).value with
    | .more s' => ⟨(loop step n s').value, (step n s).log ++ (loop step n s').log⟩
    | .done a => ⟨some a, (step n s).log⟩
    | .out => ⟨none, (step n s).log⟩

variable {step : ℕ → σ → Logged ι (Next σ α)} {n : ℕ} {s s' : σ} {a : α}

theorem loop_more (h : (step n s).value = .more s') : loop step (n + 1) s =
    ⟨(loop step n s').value, (step n s).log ++ (loop step n s').log⟩ := by
  rw [loop, h]

theorem loop_done (h : (step n s).value = .done a) :
    loop step (n + 1) s = ⟨some a, (step n s).log⟩ := by
  rw [loop, h]

theorem loop_out (h : (step n s).value = .out) :
    loop step (n + 1) s = ⟨none, (step n s).log⟩ := by
  rw [loop, h]

/-- The accesses of the first round are accesses of the loop. -/
theorem log_step_subset : (step n s).log ⊆ (loop step (n + 1) s).log := by
  cases h : (step n s).value with
  | more s' =>
    rw [loop_more h]
    exact List.subset_append_left _ _
  | done a =>
    rw [loop_done h]
    exact List.Subset.refl _
  | out =>
    rw [loop_out h]
    exact List.Subset.refl _

/-- The rounds that go on through known states are skipped; their accesses are kept. -/
theorem loop_skip {t : ℕ → σ} {j : ℕ}
    (h : ∀ i < j, ∀ n, (step n (t i)).value = .more (t (i + 1))) :
    (loop step (n + j) (t 0)).value = (loop step n (t j)).value ∧
      (loop step n (t j)).log ⊆ (loop step (n + j) (t 0)).log := by
  induction j generalizing n with
  | zero => exact ⟨rfl, List.Subset.refl _⟩
  | succ j ih =>
    obtain ⟨hvalue, hlog⟩ := @ih (n + 1) fun i hi => h i (Nat.lt_succ_of_lt hi)
    rw [loop_more (h j (Nat.lt_succ_self j) n)] at hvalue hlog
    rw [Nat.add_right_comm, Nat.add_assoc] at hvalue hlog
    exact ⟨hvalue, List.Subset.trans (List.subset_append_right _ _) hlog⟩

/-- A property of accesses that every round has from an invariant, the loop has. -/
theorem forall_log_loop {I : σ → Prop} {P : ι → Prop}
    (hstep : ∀ n s, I s → (∀ i ∈ (step n s).log, P i) ∧
      ∀ s', (step n s).value = .more s' → I s') (hs : I s) : ∀ i ∈ (loop step n s).log, P i := by
  induction n generalizing s with
  | zero => exact fun _ h => absurd h List.not_mem_nil
  | succ n ih =>
    obtain ⟨hlog, hnext⟩ := hstep n s hs
    cases h : (step n s).value with
    | more s' =>
      rw [loop_more h]
      exact List.forall_mem_append.mpr ⟨hlog, ih (hnext s' h)⟩
    | done a =>
      rw [loop_done h]
      exact hlog
    | out =>
      rw [loop_out h]
      exact hlog

/-- A property of results that every last round has from an invariant, the loop has. -/
theorem value_loop {I : σ → Prop} {Q : α → Prop}
    (hstep : ∀ n s, I s → (∀ a, (step n s).value = .done a → Q a) ∧
      ∀ s', (step n s).value = .more s' → I s') (hs : I s)
    (h : (loop step n s).value = some a) : Q a := by
  induction n generalizing s with
  | zero => cases h
  | succ n ih =>
    obtain ⟨hdone, hnext⟩ := hstep n s hs
    cases hv : (step n s).value with
    | more s' =>
      rw [loop_more hv] at h
      exact ih (hnext s' hv) h
    | done b =>
      rw [loop_done hv] at h
      rw [← Option.some_inj.mp h]
      exact hdone b hv
    | out =>
      rw [loop_out hv] at h
      cases h

/-- A loop whose rounds are never out and count a measure down ends. -/
theorem exists_loop {μ : σ → ℕ} {I : σ → Prop}
    (hstep : ∀ n s, I s → (∃ a, (step n s).value = .done a) ∨
      ∃ s', (step n s).value = .more s' ∧ I s' ∧ μ s' < μ s) (hs : I s) (hn : μ s < n) :
    ∃ a, (loop step n s).value = some a := by
  induction n generalizing s with
  | zero => exact absurd hn (Nat.not_lt_zero _)
  | succ n ih =>
    rcases hstep n s hs with ⟨a, h⟩ | ⟨s', h, hs', hlt⟩
    · exact ⟨a, by rw [loop_done h]⟩
    · obtain ⟨a, ha⟩ := ih hs' (by omega)
      exact ⟨a, by rw [loop_more h]; exact ha⟩

end AccessLog
