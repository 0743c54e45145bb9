import Mathlib.Tactic

/-!
# Procedures that can be cut short

A procedure changes a state and either returns a value or stops with a reason; the state
it has reached is kept in both cases. `Triple P c Q R` says that from a state in `P` the
procedure `c` returns in `Q` or stops in `R`, so `R` covers every point at which the
procedure can be interrupted.
-/

namespace CrashLogic

variable {σ ε α β ι : Type}

abbrev Proc (σ ε α : Type) := ExceptT ε (StateM σ) α

/-- The result of a procedure and the state it leaves. -/
def exec (c : Proc σ ε α) (s : σ) : Except ε α × σ := c s

def Triple (P : σ → Prop) (c : Proc σ ε α) (Q : α → σ → Prop) (R : ε → σ → Prop) : Prop :=
  ∀ s, P s → match exec c s with
    | (.ok a, s') => Q a s'
    | (.error e, s') => R e s'

def Proc.ofFun (f : σ → Except ε α × σ) : Proc σ ε α := f

@[simp] theorem exec_ofFun (f : σ → Except ε α × σ) (s : σ) : exec (Proc.ofFun f) s = f s := rfl

@[simp] theorem exec_pure (a : α) (s : σ) : exec (pure a : Proc σ ε α) s = (.ok a, s) := rfl

theorem exec_bind (c : Proc σ ε α) (f : α → Proc σ ε β) (s : σ) :
    exec (c >>= f) s = match exec c s with
      | (.ok a, s') => exec (f a) s'
      | (.error e, s') => (.error e, s') := by
  change (ExceptT.bind c f) s = _
  unfold exec
  simp only [ExceptT.bind, ExceptT.mk]
  change (StateT.bind c _) s = _
  simp only [StateT.bind]
  rcases c s with ⟨r, s'⟩
  cases r <;> rfl

variable {P P' : σ → Prop} {Q Q' : α → σ → Prop} {R R' : ε → σ → Prop} {c : Proc σ ε α}

theorem Triple.ok (h : Triple P c Q R) {s s' : σ} {a : α} (hs : P s)
    (he : exec c s = (.ok a, s')) : Q a s' := by
  have := h s hs
  rwa [he] at this

theorem Triple.error (h : Triple P c Q R) {s s' : σ} {e : ε} (hs : P s)
    (he : exec c s = (.error e, s')) : R e s' := by
  have := h s hs
  rwa [he] at this

/-- A condition that holds on return and on every stop holds of the final state. -/
theorem Triple.final {I : σ → Prop} (h : Triple P c (fun _ => I) (fun _ => I)) {s : σ}
    (hs : P s) : I (exec c s).2 := by
  have := h s hs
  rcases he : exec c s with ⟨r, s'⟩
  rw [he] at this
  cases r <;> exact this

theorem Triple.conseq (h : Triple P c Q R) (hP : ∀ s, P' s → P s) (hQ : ∀ a s, Q a s → Q' a s)
    (hR : ∀ e s, R e s → R' e s) : Triple P' c Q' R' := by
  intro s hs
  have := h s (hP s hs)
  rcases he : exec c s with ⟨r, s'⟩
  rw [he] at this
  cases r with
  | ok a => exact hQ a s' this
  | error e => exact hR e s' this

theorem triple_pure {a : α} (h : ∀ s, P s → Q a s) : Triple P (pure a) Q R := fun s hs => h s hs

theorem triple_throw {e : ε} (h : ∀ s, P s → R e s) : Triple P (throw e) Q R := fun s hs => h s hs

theorem triple_bind {Q₁ : β → σ → Prop} {f : α → Proc σ ε β} (h : Triple P c Q R)
    (hf : ∀ a, Triple (Q a) (f a) Q₁ R) : Triple P (c >>= f) Q₁ R := by
  intro s hs
  have h1 := h s hs
  rw [exec_bind]
  rcases he : exec c s with ⟨r, s'⟩
  rw [he] at h1
  cases r with
  | ok a => exact hf a s' h1
  | error e => exact h1

/-- Every run of the procedure, stopped or not, changes the state only as `r` allows. -/
def Within (r : σ → σ → Prop) (c : Proc σ ε α) : Prop := ∀ s, r s (exec c s).2

section Within

variable {r : σ → σ → Prop}

theorem within_pure (hrefl : ∀ s, r s s) (a : α) : Within r (pure a : Proc σ ε α) :=
  fun s => hrefl s

theorem within_throw (hrefl : ∀ s, r s s) (e : ε) : Within r (throw e : Proc σ ε α) :=
  fun s => hrefl s

theorem within_bind (htrans : ∀ {s t u}, r s t → r t u → r s u) {f : α → Proc σ ε β}
    (h : Within r c) (hf : ∀ a, Within r (f a)) : Within r (c >>= f) := by
  intro s
  have h1 := h s
  rw [exec_bind]
  rcases he : exec c s with ⟨res, s'⟩
  rw [he] at h1
  cases res with
  | ok a => exact htrans h1 (hf a s')
  | error e => exact h1

theorem Within.mono {r' : σ → σ → Prop} (h : Within r c) (hr : ∀ s t, r s t → r' s t) :
    Within r' c :=
  fun s => hr _ _ (h s)

/-- A triple may assume of the final state what every run keeps. -/
theorem Triple.within (h : Triple P c Q R) (hw : Within r c) (s₀ : σ) :
    Triple (fun s => s = s₀ ∧ P s) c (fun a s => Q a s ∧ r s₀ s) (fun e s => R e s ∧ r s₀ s) := by
  intro s hs
  obtain ⟨rfl, hP⟩ := hs
  have h1 := h s hP
  have h2 := hw s
  rcases he : exec c s with ⟨res, s'⟩
  rw [he] at h1 h2
  cases res <;> exact ⟨h1, h2⟩

end Within

end CrashLogic
