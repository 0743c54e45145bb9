import Mathlib

/-!
# The gaps between sorted intervals

An interval is a pair of bounds, the upper one excluded. `gaps hi lo rs` sweeps the sorted
intervals `rs` and lists what they leave of the interval from `lo` to `hi`: nonempty
intervals in increasing order that cover exactly the points of it in none of the `rs`.
-/

namespace IntervalGaps

variable {α : Type*} [LinearOrder α]

def points (r : α × α) : Set α := Set.Ico r.1 r.2

/-- The points of the intervals of a list. -/
def covered (l : List (α × α)) : Set α := {x | ∃ r ∈ l, x ∈ points r}

@[simp] theorem mem_covered_nil (x : α) : x ∉ covered ([] : List (α × α)) := by
  simp [covered]

@[simp] theorem mem_covered_cons {x : α} {r : α × α} {l : List (α × α)} :
    x ∈ covered (r :: l) ↔ x ∈ points r ∨ x ∈ covered l := by
  simp [covered]

@[simp] theorem mem_covered_append {x : α} {l m : List (α × α)} :
    x ∈ covered (l ++ m) ↔ x ∈ covered l ∨ x ∈ covered m := by
  simp [covered, or_and_right, exists_or]

theorem covered_perm {l m : List (α × α)} (h : l.Perm m) : covered l = covered m := by
  ext x
  change (∃ r ∈ l, x ∈ points r) ↔ ∃ r ∈ m, x ∈ points r
  simp only [h.mem_iff]

/-- The interval between two bounds, if there is anything in it. -/
def between (lo hi : α) : List (α × α) := if lo < hi then [(lo, hi)] else []

@[simp] theorem mem_covered_between {x lo hi : α} :
    x ∈ covered (between lo hi) ↔ lo ≤ x ∧ x < hi := by
  unfold between
  split_ifs with h
  · simp [points]
  · suffices lo ≤ x → ¬x < hi by simpa using this
    intro hx hlt
    exact h (lt_of_le_of_lt hx hlt)

theorem eq_of_mem_between {lo hi : α} {r : α × α} (h : r ∈ between lo hi) :
    r = (lo, hi) ∧ lo < hi := by
  unfold between at h
  split_ifs at h with hlt
  · exact ⟨List.mem_singleton.mp h, hlt⟩
  · cases h

/-- The sweep stops at the first interval that starts behind `hi` and skips those that end
before the point it has reached. -/
def gaps (hi : α) : α → List (α × α) → List (α × α)
  | lo, [] => between lo hi
  | lo, r :: rs =>
    if hi ≤ r.1 then between lo hi
    else if r.2 ≤ lo then gaps hi lo rs
    else between lo r.1 ++ gaps hi r.2 rs

/-- Sorted by lower bound, no lower bound behind its upper bound. -/
structure Sorted (rs : List (α × α)) : Prop where
  starts : rs.Pairwise (fun r s => r.1 ≤ s.1)
  bounds : ∀ r ∈ rs, r.1 ≤ r.2

theorem Sorted.tail {r : α × α} {rs : List (α × α)} (h : Sorted (r :: rs)) : Sorted rs :=
  ⟨h.starts.of_cons, fun s hs => h.bounds s (List.mem_cons_of_mem r hs)⟩

variable {hi lo : α} {rs : List (α × α)}

theorem mem_covered_gaps (hs : Sorted rs) {x : α} :
    x ∈ covered (gaps hi lo rs) ↔ (lo ≤ x ∧ x < hi) ∧ x ∉ covered rs := by
  induction rs generalizing lo with
  | nil => simp [gaps]
  | cons r rs ih =>
    have hr := hs.bounds r List.mem_cons_self
    have hrest : ∀ s ∈ rs, r.1 ≤ s.1 := fun _ h => List.rel_of_pairwise_cons hs.starts h
    simp only [gaps, mem_covered_cons]
    split_ifs with hstop hskip
    · -- every later interval starts behind `hi` too
      have hpast : x < hi → x ∉ points r ∧ x ∉ covered rs := by
        intro hx
        refine ⟨fun hmem => absurd (hstop.trans hmem.1) (not_le_of_gt hx), ?_⟩
        intro hmem
        obtain ⟨s, hsrs, hxs⟩ := hmem
        exact absurd ((hstop.trans (hrest s hsrs)).trans hxs.1) (not_le_of_gt hx)
      rw [mem_covered_between]
      constructor
      · intro h
        obtain ⟨h1, h2⟩ := hpast h.2
        exact ⟨h, fun hc => hc.elim h1 h2⟩
      · intro h
        exact h.1
    · have hbefore : lo ≤ x → x ∉ points r := fun hx hmem =>
        absurd (hskip.trans hx) (not_le_of_gt hmem.2)
      rw [ih hs.tail]
      tauto
    · -- what lies before the interval is free because no later one starts earlier
      have hfree : x < r.1 → x ∉ covered rs := by
        intro hx hmem
        obtain ⟨s, hsrs, hxs⟩ := hmem
        exact absurd ((hrest s hsrs).trans hxs.1) (not_le_of_gt hx)
      have hstop' := lt_of_not_ge hstop
      have hskip' := lt_of_not_ge hskip
      rw [mem_covered_append, mem_covered_between, ih hs.tail]
      simp only [points, Set.mem_Ico]
      constructor
      · rintro (⟨h1, h2⟩ | ⟨⟨h1, h2⟩, h3⟩)
        · exact ⟨⟨h1, h2.trans hstop'⟩, fun hc => hc.elim
            (fun h => absurd h.1 (not_le_of_gt h2)) (hfree h2)⟩
        · exact ⟨⟨hskip'.le.trans h1, h2⟩, fun hc => hc.elim
            (fun h => absurd h.2 (not_lt_of_ge h1)) h3⟩
      · intro h
        obtain ⟨⟨h1, h2⟩, h3⟩ := h
        rcases lt_or_ge x r.1 with hx | hx
        · exact Or.inl ⟨h1, hx⟩
        · exact Or.inr ⟨⟨le_of_not_gt fun hlt => h3 (Or.inl ⟨hx, hlt⟩), h2⟩,
            fun hc => h3 (Or.inr hc)⟩

/-- The gaps are nonempty and lie between the bounds. -/
theorem bounds_of_mem_gaps (hs : Sorted rs) {r : α × α} (h : r ∈ gaps hi lo rs) :
    lo ≤ r.1 ∧ r.1 < r.2 ∧ r.2 ≤ hi := by
  induction rs generalizing lo with
  | nil =>
    obtain ⟨rfl, hlt⟩ := eq_of_mem_between h
    exact ⟨le_rfl, hlt, le_rfl⟩
  | cons s rs ih =>
    simp only [gaps] at h
    split_ifs at h with hstop hskip
    · obtain ⟨rfl, hlt⟩ := eq_of_mem_between h
      exact ⟨le_rfl, hlt, le_rfl⟩
    · exact ih hs.tail h
    · rcases List.mem_append.mp h with h | h
      · obtain ⟨rfl, hlt⟩ := eq_of_mem_between h
        exact ⟨le_rfl, hlt, (lt_of_not_ge hstop).le⟩
      · obtain ⟨h1, h2, h3⟩ := ih hs.tail h
        exact ⟨(lt_of_not_ge hskip).le.trans h1, h2, h3⟩

/-- The gaps are listed in increasing order. -/
theorem pairwise_gaps (hs : Sorted rs) : (gaps hi lo rs).Pairwise (fun r s => r.2 ≤ s.1) := by
  have hone (a b : α) : (between a b).Pairwise (fun r s => r.2 ≤ s.1) := by
    unfold between
    split_ifs <;> simp
  induction rs generalizing lo with
  | nil => exact hone lo hi
  | cons r rs ih =>
    simp only [gaps]
    split_ifs with hstop hskip
    · exact hone lo hi
    · exact ih hs.tail
    · rw [List.pairwise_append]
      refine ⟨hone lo r.1, ih hs.tail, ?_⟩
      intro s hs' t ht
      obtain ⟨rfl, -⟩ := eq_of_mem_between hs'
      have hbound := (bounds_of_mem_gaps hs.tail ht).1
      exact (hs.bounds r List.mem_cons_self).trans hbound

/-- The gaps of several intervals, one after the other. -/
def gapsAll (rs ranges : List (α × α)) : List (α × α) :=
  ranges.flatMap (fun r => gaps r.2 r.1 rs)

theorem mem_covered_gapsAll (hs : Sorted rs) {ranges : List (α × α)} {x : α} :
    x ∈ covered (gapsAll rs ranges) ↔ x ∈ covered ranges ∧ x ∉ covered rs := by
  induction ranges with
  | nil => simp [gapsAll]
  | cons r ranges ih =>
    change x ∈ covered (gaps r.2 r.1 rs ++ gapsAll rs ranges) ↔ _
    rw [mem_covered_append, mem_covered_gaps hs, ih, mem_covered_cons, or_and_right]
    rfl

theorem disjoint_of_le {r s : α × α} (h : r.2 ≤ s.1) : Disjoint (points r) (points s) := by
  rw [Set.disjoint_left]
  intro x hr hs
  exact absurd hr.2 (not_lt.mpr (h.trans hs.1))

/-- Disjoint intervals have disjoint gaps. -/
theorem pairwise_gapsAll (hs : Sorted rs) {ranges : List (α × α)}
    (hd : ranges.Pairwise (fun r s => Disjoint (points r) (points s))) :
    (gapsAll rs ranges).Pairwise (fun r s => Disjoint (points r) (points s)) := by
  have hwithin {r s : α × α} (h : s ∈ gaps r.2 r.1 rs) : points s ⊆ points r := by
    obtain ⟨h1, -, h3⟩ := bounds_of_mem_gaps hs h
    exact Set.Ico_subset_Ico h1 h3
  induction ranges with
  | nil => exact List.Pairwise.nil
  | cons r ranges ih =>
    change (gaps r.2 r.1 rs ++ gapsAll rs ranges).Pairwise _
    rw [List.pairwise_append]
    refine ⟨?_, ih hd.of_cons, ?_⟩
    · exact (pairwise_gaps hs).imp disjoint_of_le
    · intro s hs' t ht
      obtain ⟨r', hr', ht'⟩ := List.mem_flatMap.mp ht
      exact (List.rel_of_pairwise_cons hd hr').mono (hwithin hs') (hwithin ht')

/-- Intervals in order that end before their neighbours from `lo` on end before all that follow. -/
theorem pairwise_of_isChain {lo : α} {l : List (α × α)}
    (hsorted : l.Pairwise (fun r s => r.1 ≤ s.1))
    (hchain : l.IsChain (fun r s => lo ≤ r.1 → r.2 ≤ s.1)) :
    l.Pairwise (fun r s => lo ≤ r.1 → r.2 ≤ s.1) := by
  induction l with
  | nil => exact List.Pairwise.nil
  | cons r l ih =>
    rw [List.pairwise_cons] at hsorted ⊢
    refine ⟨fun s hs hlo => ?_, ih hsorted.2 hchain.tail⟩
    cases l with
    | nil => exact absurd hs List.not_mem_nil
    | cons t l =>
      have hend := (List.isChain_cons_cons.mp hchain).1 hlo
      rcases List.mem_cons.mp hs with rfl | hlater
      · exact hend
      · exact hend.trans ((List.pairwise_cons.mp hsorted.2).1 s hlater)

/-- Of two nonempty intervals that are apart, the first one ends before the second one starts. -/
theorem le_of_disjoint {r s : α × α} (hle : r.1 ≤ s.1) (hs : s.1 < s.2)
    (h : Disjoint (points r) (points s)) : r.2 ≤ s.1 := by
  by_contra hlt
  exact Set.disjoint_left.mp h ⟨hle, not_le.mp hlt⟩ ⟨le_refl s.1, hs⟩

end IntervalGaps
