import Mathlib.Tactic
import Mathlib.Data.Finset.Card
import Mathlib.Data.Finset.Dedup
import Mathlib.Data.List.TakeWhile

/-!
# Tables of bounded size and loops over independent cells

A table takes up different values in the order in which they arrive, until it is full.
`mem_trackAll_iff` says which values it holds in the end: those before whose first
occurrence fewer values than the capacity have arrived.

A loop is local when the step at one index changes the cell of that index only and
depends on no other cell; a whole run then acts on every cell by itself.
-/

namespace BoundedTable

section Table

variable {α : Type*} [DecidableEq α] {capacity : ℕ} {x : α}

def track (capacity : ℕ) (table : List α) (x : α) : List α :=
  if x ∈ table ∨ capacity ≤ table.length then table else table ++ [x]

def trackAll (capacity : ℕ) (xs : List α) : List α := xs.foldl (track capacity) []

@[simp] theorem trackAll_nil : trackAll capacity ([] : List α) = [] := rfl

theorem trackAll_concat (xs : List α) (y : α) :
    trackAll capacity (xs ++ [y]) = track capacity (trackAll capacity xs) y := by
  rw [trackAll, List.foldl_append]
  rfl

theorem mem_track {table : List α} {y : α} : x ∈ track capacity table y ↔
    x ∈ table ∨ (x = y ∧ table.length < capacity) := by
  unfold track
  split_ifs with h
  · constructor
    · exact Or.inl
    · rintro (hx | ⟨rfl, hlt⟩)
      · exact hx
      · exact h.resolve_right (by omega)
  · rw [not_or, not_le] at h
    simp [h.2]

theorem mem_of_mem_trackAll {xs : List α} (h : x ∈ trackAll capacity xs) : x ∈ xs := by
  induction xs using List.reverseRecOn with
  | nil => exact h
  | append_singleton xs y ih =>
    rw [trackAll_concat, mem_track] at h
    rw [List.mem_append, List.mem_singleton]
    exact h.imp ih (fun hy => hy.1)

theorem nodup_trackAll (xs : List α) : (trackAll capacity xs).Nodup := by
  induction xs using List.reverseRecOn with
  | nil => exact List.nodup_nil
  | append_singleton xs y ih =>
    rw [trackAll_concat]
    unfold track
    split_ifs with h
    · exact ih
    · rw [not_or] at h
      exact List.nodup_append.mpr ⟨ih, List.nodup_singleton y, fun a ha b hb hab =>
        h.1 (List.mem_singleton.mp hb ▸ hab ▸ ha)⟩

/-- A table that is not full holds every value that has arrived. -/
theorem mem_trackAll_of_not_full {xs : List α} (h : (trackAll capacity xs).length < capacity)
    (hx : x ∈ xs) : x ∈ trackAll capacity xs := by
  induction xs using List.reverseRecOn with
  | nil => exact hx
  | append_singleton xs y ih =>
    rw [trackAll_concat] at h ⊢
    have hlen : (trackAll capacity xs).length ≤
        (track capacity (trackAll capacity xs) y).length := by
      unfold track
      split_ifs
      · exact le_rfl
      · simp
    rcases List.mem_append.mp hx with hold | hnew
    · exact mem_track.mpr (Or.inl (ih (by omega) hold))
    · exact mem_track.mpr (Or.inr ⟨List.mem_singleton.mp hnew, by omega⟩)

theorem length_trackAll_le (xs : List α) : (trackAll capacity xs).length ≤ capacity := by
  induction xs using List.reverseRecOn with
  | nil => exact Nat.zero_le _
  | append_singleton xs y ih =>
    rw [trackAll_concat]
    unfold track
    split_ifs with h
    · exact ih
    · rw [not_or, not_le] at h
      rw [List.length_append, List.length_singleton]
      exact h.2

theorem length_trackAll (xs : List α) :
    (trackAll capacity xs).length = min capacity xs.toFinset.card := by
  have hcard : (trackAll capacity xs).toFinset.card = (trackAll capacity xs).length :=
    List.toFinset_card_of_nodup (nodup_trackAll xs)
  have hsub : (trackAll capacity xs).toFinset ⊆ xs.toFinset := by
    intro a ha
    exact List.mem_toFinset.mpr (mem_of_mem_trackAll (List.mem_toFinset.mp ha))
  have hle := Finset.card_le_card hsub
  have hcap := @length_trackAll_le α _ capacity xs
  by_cases hfull : (trackAll capacity xs).length < capacity
  · have heq : (trackAll capacity xs).toFinset = xs.toFinset := by
      refine Finset.Subset.antisymm hsub (fun a ha => ?_)
      exact List.mem_toFinset.mpr (mem_trackAll_of_not_full hfull (List.mem_toFinset.mp ha))
    rw [heq] at hcard
    omega
  · omega

theorem takeWhile_ne_append_of_mem {xs : List α} (h : x ∈ xs) (ys : List α) :
    (xs ++ ys).takeWhile (· ≠ x) = xs.takeWhile (· ≠ x) := by
  induction xs with
  | nil => cases h
  | cons z xs ih =>
    by_cases hz : z = x
    · simp [hz]
    · have hmem : x ∈ xs := (List.mem_cons.mp h).resolve_left (Ne.symm hz)
      simpa [hz] using ih hmem

theorem takeWhile_ne_append_self {xs : List α} (h : x ∉ xs) :
    (xs ++ [x]).takeWhile (· ≠ x) = xs := by
  rw [List.takeWhile_append_of_pos]
  · simp
  · intro a ha
    simpa using fun he : a = x => h (he ▸ ha)

/-- The table holds exactly the values before whose first occurrence it was not full. -/
theorem mem_trackAll_iff {xs : List α} : x ∈ trackAll capacity xs ↔
    x ∈ xs ∧ (xs.takeWhile (· ≠ x)).toFinset.card < capacity := by
  induction xs using List.reverseRecOn with
  | nil => simp
  | append_singleton xs y ih =>
    have hlen := @length_trackAll α _ capacity xs
    rw [trackAll_concat, mem_track, List.mem_append, List.mem_singleton]
    by_cases hx : x ∈ xs
    · -- A value that has arrived before is held, or the table is full.
      have hheld := @mem_trackAll_of_not_full α _ capacity x xs
      rw [takeWhile_ne_append_of_mem hx, ih]
      rw [ih] at hheld
      tauto
    · have hnew : x ∉ trackAll capacity xs := fun hmem => hx (mem_of_mem_trackAll hmem)
      by_cases hy : x = y
      · subst hy
        rw [takeWhile_ne_append_self hx]
        simp only [hnew, hx, true_and, false_or, or_true]
        omega
      · simp [hnew, hx, hy]

end Table

section Loop

variable {σ ι γ β : Type*} [DecidableEq ι] {view : σ → ι → γ} {step : σ → ι → σ}
  {f : ι → γ → γ} {S : Set ι}

/-- On the indices in `S`, the step at one index changes the cell of that index only. -/
def Local (view : σ → ι → γ) (step : σ → ι → σ) (f : ι → γ → γ) (S : Set ι) : Prop :=
  ∀ s, ∀ i ∈ S, ∀ j ∈ S, view (step s i) j = if j = i then f i (view s i) else view s j

theorem Local.foldl (h : Local view step f S) {l : List ι} (hl : l.Nodup) (hS : ∀ i ∈ l, i ∈ S)
    (s : σ) {j : ι} (hj : j ∈ S) :
    view (l.foldl step s) j = if j ∈ l then f j (view s j) else view s j := by
  induction l generalizing s with
  | nil => rfl
  | cons i l ih =>
    obtain ⟨hi, hl⟩ := List.nodup_cons.mp hl
    have hrun := ih hl (fun k hk => hS k (List.mem_cons_of_mem i hk)) (step s i)
    have hstep := h s i (hS i List.mem_cons_self) j hj
    rw [List.foldl_cons, hrun, hstep]
    by_cases hji : j = i
    · subst hji
      simp [hi]
    · simp [hji]

/-- A run that also collects something from the cell of every index sees the initial cells. -/
theorem Local.foldl_collect (h : Local view step f S) (collect : β → ι → γ → β) {l : List ι}
    (hl : l.Nodup) (hS : ∀ i ∈ l, i ∈ S) (s : σ) (b : β) :
    l.foldl (fun p i => (step p.1 i, collect p.2 i (view p.1 i))) (s, b) =
      (l.foldl step s, l.foldl (fun b i => collect b i (view s i)) b) := by
  induction l generalizing s b with
  | nil => rfl
  | cons i l ih =>
    obtain ⟨hi, hl⟩ := List.nodup_cons.mp hl
    have hmem := hS i List.mem_cons_self
    have hrest := fun k hk => hS k (List.mem_cons_of_mem i hk)
    rw [List.foldl_cons, ih hl hrest, List.foldl_cons, List.foldl_cons]
    congr 1
    apply List.foldl_ext
    intro b' j hj
    have hstep := h s i hmem j (hrest j hj)
    have hne : j ≠ i := fun hji => hi (hji ▸ hj)
    rw [hstep, if_neg hne]

omit [DecidableEq ι] in
/-- What no step of a loop changes, the loop does not change. -/
theorem foldl_frame (observe : σ → γ) {l : List ι}
    (h : ∀ s, ∀ i ∈ l, observe (step s i) = observe s) (s : σ) :
    observe (l.foldl step s) = observe s := by
  induction l generalizing s with
  | nil => rfl
  | cons i l ih =>
    have hrun := ih (fun s j hj => h s j (List.mem_cons_of_mem i hj)) (step s i)
    rw [List.foldl_cons, hrun]
    exact h s i List.mem_cons_self

end Loop

end BoundedTable
