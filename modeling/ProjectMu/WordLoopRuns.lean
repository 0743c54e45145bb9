import ProjectMu.Arm64Program
import ProjectMu.WordLoop

/-!
# Programs that run a loop over words

Where a program at the index `i` takes one word and comes back to `i` for the next one, or
to `j` after the last one or when the loop is left, it runs the whole loop.
-/

namespace Arm64

variable {σ : Type*} {body : Address → σ → σ × Bool} {base : Address} {size : ℕ}
variable {p : List Instr} {P : Set Address} {i j : ℕ}

/-- `R` relates the state of the loop to the core at a word, `Q` to the core after it. -/
structure RunsWords (p : List Instr) (P : Set Address) (i j : ℕ)
    (body : Address → σ → σ × Bool) (base : Address) (size : ℕ)
    (R : Address → σ → Core → Prop) (Q : σ → Core → Prop) : Prop where
  next : ∀ k s c, k + 1 < wordCount size → R (word base k) s c →
    (body (word base k) s).2 = false →
    ∃ c', Runs p P i c i c' ∧ R (word base (k + 1)) (body (word base k) s).1 c'
  last : ∀ k s c, k + 1 = wordCount size → R (word base k) s c →
    (body (word base k) s).2 = false →
    ∃ c', Runs p P i c j c' ∧ Q (body (word base k) s).1 c'
  leave : ∀ k s c, k < wordCount size → R (word base k) s c →
    (body (word base k) s).2 = true →
    ∃ c', Runs p P i c j c' ∧ Q (body (word base k) s).1 c'

theorem RunsWords.runs {R : Address → σ → Core → Prop} {Q : σ → Core → Prop}
    (h : RunsWords p P i j body base size R Q) (hfit : Fits base size) {n k : ℕ} {s s' : σ}
    {c : Core} (hk : k < wordCount size) (hR : R (word base k) s c)
    (hloop : forWords body (base + BitVec.ofNat 64 size) n (word base k) s = some s') :
    ∃ c', Runs p P i c j c' ∧ Q s' c' := by
  induction n generalizing k s c with
  | zero => cases hloop
  | succ n ih =>
    have hcurrent := (hfit.word_lt_iff hk.le).mpr hk
    cases hleave : (body (word base k) s).2 with
    | true =>
      rw [forWords_leave hcurrent hleave, Option.some_inj] at hloop
      rw [← hloop]
      exact h.leave k s c hk hR hleave
    | false =>
      rw [forWords_next hcurrent hleave, word_succ] at hloop
      rcases Nat.lt_or_ge (k + 1) (wordCount size) with hmore | hdone
      · obtain ⟨c', hrun, hR'⟩ := h.next k s c hmore hR hleave
        obtain ⟨c'', hrun', hQ⟩ := ih hmore hR' hloop
        exact ⟨c'', hrun.trans hrun', hQ⟩
      · cases n with
        | zero => cases hloop
        | succ n =>
          have hend : ¬word base (k + 1) < base + BitVec.ofNat 64 size := fun hlt =>
            absurd ((hfit.word_lt_iff hk).mp hlt) (by omega)
          rw [forWords_of_le hend, Option.some_inj] at hloop
          rw [← hloop]
          exact h.last k s c (by omega) hR hleave

/-- A body that only changes memory, run from `i` to an index `a` where the program takes the
step to the next word. -/
theorem RunsWords.ofMemory {body : Address → Memory → Memory} {Regs : Address → Core → Prop}
    {a : ℕ} (hfit : Fits base size)
    (hword : ∀ k c, k < wordCount size → Regs (word base k) c →
      ∃ c', Runs p P i c a c' ∧ Regs (word base k) c' ∧ c'.mem = body (word base k) c.mem)
    (hadvance : ∀ current c, Regs current c →
      ∃ c', Regs (current + 4) c' ∧ c'.mem = c.mem ∧
        (current + 4 < base + BitVec.ofNat 64 size → Runs p P a c i c') ∧
        (¬current + 4 < base + BitVec.ofNat 64 size → Runs p P a c j c')) :
    RunsWords p P i j (fun a m => (body a m, false)) base size
      (fun current m c => Regs current c ∧ c.mem = m) (fun m c => c.mem = m) := by
  refine ⟨?_, ?_, ?_⟩
  · rintro k m c hk ⟨hregs, rfl⟩ -
    obtain ⟨d, hrun, hregs', hmem⟩ := hword k c (by omega) hregs
    obtain ⟨e, hregs'', hmem', hmore, -⟩ := hadvance _ d hregs'
    rw [word_succ] at hregs'' hmore
    exact ⟨e, hrun.trans (hmore ((hfit.word_lt_iff hk.le).mpr hk)), hregs'', hmem'.trans hmem⟩
  · rintro k m c hk ⟨hregs, rfl⟩ -
    obtain ⟨d, hrun, hregs', hmem⟩ := hword k c (by omega) hregs
    obtain ⟨e, -, hmem', -, hdone⟩ := hadvance _ d hregs'
    rw [word_succ] at hdone
    have hend : ¬word base (k + 1) < base + BitVec.ofNat 64 size := fun hlt =>
      absurd ((hfit.word_lt_iff hk.le).mp hlt) (by omega)
    exact ⟨e, hrun.trans (hdone hend), hmem'.trans hmem⟩
  · rintro k m c hk hR hleave
    cases hleave

/-- The loop from before its first test. -/
theorem NonWrapping.runs {R : Address → σ → Core → Prop} {Q : σ → Core → Prop}
    (hfit : NonWrapping base size)
    (h : Fits base size → RunsWords p P i j body base size R Q) {n i₀ : ℕ} {s s' : σ} {c : Core}
    (hsome : base < base + BitVec.ofNat 64 size → ∃ d, Runs p P i₀ c i d ∧ R base s d)
    (hnone : ¬base < base + BitVec.ofNat 64 size → ∃ d, Runs p P i₀ c j d ∧ Q s d)
    (hloop : forWords body (base + BitVec.ofNat 64 size) n base s = some s') :
    ∃ c', Runs p P i₀ c j c' ∧ Q s' c' := by
  by_cases hlt : base < base + BitVec.ofNat 64 size
  · have hfit := hfit hlt
    have hfirst := hfit.word_lt_iff (Nat.zero_le _)
    rw [word_zero] at hfirst
    obtain ⟨d, hrun, hR⟩ := hsome hlt
    rw [← @word_zero base] at hR
    have hloop' : forWords body (base + BitVec.ofNat 64 size) n (word base 0) s = some s' := by
      rwa [word_zero]
    obtain ⟨c', hrun', hQ⟩ := (h hfit).runs hfit (hfirst.mp hlt) hR hloop'
    exact ⟨c', hrun.trans hrun', hQ⟩
  · cases n with
    | zero => cases hloop
    | succ n =>
      rw [forWords_of_le hlt, Option.some_inj] at hloop
      rw [← hloop]
      exact hnone hlt

/-- A program from its start to its end: into the loop, through it, and on from it. -/
theorem NonWrapping.runs_memory {body : Address → Memory → Memory} {Regs : Address → Core → Prop}
    {a n i₀ e : ℕ} {c : Core} {m : Memory} (hfit : NonWrapping base size)
    (hword : ∀ k c, k < wordCount size → Regs (word base k) c →
      ∃ c', Runs p P i c a c' ∧ Regs (word base k) c' ∧ c'.mem = body (word base k) c.mem)
    (hadvance : ∀ current c, Regs current c →
      ∃ c', Regs (current + 4) c' ∧ c'.mem = c.mem ∧
        (current + 4 < base + BitVec.ofNat 64 size → Runs p P a c i c') ∧
        (¬current + 4 < base + BitVec.ofNat 64 size → Runs p P a c j c'))
    (henter : ∃ d, Regs base d ∧ d.mem = c.mem ∧
      (base < base + BitVec.ofNat 64 size → Runs p P i₀ c i d) ∧
      (¬base < base + BitVec.ofNat 64 size → Runs p P i₀ c j d))
    (hfinish : ∀ c, ∃ d, Runs p P j c e d ∧ d.mem = c.mem)
    (hloop : forWords (fun a m => (body a m, false)) (base + BitVec.ofNat 64 size) n base c.mem =
      some m) : ∃ c', Runs p P i₀ c e c' ∧ c'.mem = m := by
  obtain ⟨d, hregs, hmem, hsome, hnone⟩ := henter
  obtain ⟨c₁, hwords, hmem₁⟩ := hfit.runs (fun hfit => .ofMemory hfit hword hadvance)
    (fun hlt => ⟨d, hsome hlt, hregs, hmem⟩) (fun hge => ⟨d, hnone hge, hmem⟩) hloop
  obtain ⟨c₂, hfinish, hmem₂⟩ := hfinish c₁
  exact ⟨c₂, hwords.trans hfinish, hmem₂.trans hmem₁⟩

end Arm64
