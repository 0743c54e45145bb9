import Mathlib.Data.List.Perm.Subperm
import Mathlib.Logic.Equiv.Fintype
import Mathlib.Tactic

/-!
# Sorting a range of cells around a pivot

`sort` exchanges cells of a range until those up to the pivot, which is the last cell, are in
front of it, and goes on with the cells on both sides. Whatever the comparison answers, the cells
are rearranged within the range; if it is a total order up to equal keys, they are sorted.
-/

namespace PivotSort

variable {β : Type*} (le : β → β → Bool)

def swap (i j : ℕ) (f : ℕ → β) : ℕ → β := f ∘ Equiv.swap i j

/-- One comparison with the pivot. The second component is the next cell to exchange. -/
def scanStep (pivot : ℕ) (acc : (ℕ → β) × ℕ) (i : ℕ) : (ℕ → β) × ℕ :=
  if le (acc.1 i) (acc.1 pivot) then (swap acc.2 i acc.1, acc.2 + 1) else acc

def scan (pivot first n : ℕ) (f : ℕ → β) : (ℕ → β) × ℕ :=
  (List.range' first n).foldl (scanStep le pivot) (f, first)

/-- The cells outside a range stay, the others change their places. -/
def Rearranges (first count : ℕ) (f g : ℕ → β) : Prop :=
  ∃ σ : Equiv.Perm ℕ, (∀ i, i < first ∨ first + count ≤ i → σ i = i) ∧ g = f ∘ σ

def SortedIn (first count : ℕ) (f : ℕ → β) : Prop :=
  ∀ i j, first ≤ i → i < j → j < first + count → le (f i) (f j) = true

variable {le} {f g h : ℕ → β} {first count first' count' pivot n i j : ℕ}

theorem Rearranges.refl (first count : ℕ) (f : ℕ → β) : Rearranges first count f f :=
  ⟨1, fun _ _ => rfl, rfl⟩

theorem Rearranges.trans (hfg : Rearranges first count f g) (hgh : Rearranges first count g h) :
    Rearranges first count f h := by
  obtain ⟨σ, hσ, rfl⟩ := hfg
  obtain ⟨τ, hτ, rfl⟩ := hgh
  refine ⟨σ * τ, fun i hi => ?_, rfl⟩
  rw [Equiv.Perm.mul_apply, hτ i hi, hσ i hi]

theorem Rearranges.mono (hfg : Rearranges first count f g) (hlow : first' ≤ first)
    (hhigh : first + count ≤ first' + count') : Rearranges first' count' f g := by
  obtain ⟨σ, hσ, heq⟩ := hfg
  exact ⟨σ, fun i hi => hσ i (by omega), heq⟩

theorem Rearranges.outside (hfg : Rearranges first count f g)
    (hi : i < first ∨ first + count ≤ i) : g i = f i := by
  obtain ⟨σ, hσ, rfl⟩ := hfg
  rw [Function.comp_apply, hσ i hi]

/-- Each cell of the range has what one of the range had. -/
theorem Rearranges.inside (hfg : Rearranges first count f g) (hlow : first ≤ i)
    (hhigh : i < first + count) : ∃ j, first ≤ j ∧ j < first + count ∧ g i = f j := by
  obtain ⟨σ, hσ, rfl⟩ := hfg
  refine ⟨σ i, ?_⟩
  by_contra hout
  have hfix : σ (σ i) = σ i := hσ (σ i) (by by_contra hin; exact hout ⟨by omega, by omega, rfl⟩)
  have heq := σ.injective hfix
  rw [heq] at hout
  exact hout ⟨hlow, hhigh, by rw [Function.comp_apply, heq]⟩

theorem Rearranges.perm (hfg : Rearranges first count f g) :
    ((List.range' first count).map g).Perm ((List.range' first count).map f) := by
  obtain ⟨σ, hσ, rfl⟩ := hfg
  have hnodup : ((List.range' first count).map σ).Nodup :=
    List.Nodup.map σ.injective List.nodup_range'
  have hperm : ((List.range' first count).map σ).Perm (List.range' first count) := by
    refine (List.subperm_of_subset hnodup fun i hi => ?_).perm_of_length_le (by simp)
    obtain ⟨j, hj, rfl⟩ := List.mem_map.mp hi
    obtain ⟨hlow, hhigh⟩ := List.mem_range'_1.mp hj
    by_contra hout
    have hfix : σ (σ j) = σ j := hσ _ (by rw [List.mem_range'_1] at hout; omega)
    rw [σ.injective hfix] at hout
    exact hout hj
  rw [← List.map_map]
  exact hperm.map f

theorem rearranges_swap (hi : first ≤ i ∧ i < first + count) (hj : first ≤ j ∧ j < first + count)
    (f : ℕ → β) : Rearranges first count f (swap i j f) :=
  ⟨Equiv.swap i j, fun k hk => Equiv.swap_apply_of_ne_of_ne (by omega) (by omega), rfl⟩

@[simp] theorem swap_left (i j : ℕ) (f : ℕ → β) : swap i j f i = f j := by
  rw [swap, Function.comp_apply, Equiv.swap_apply_left]

@[simp] theorem swap_right (i j : ℕ) (f : ℕ → β) : swap i j f j = f i := by
  rw [swap, Function.comp_apply, Equiv.swap_apply_right]

theorem swap_of_ne {k : ℕ} (hi : k ≠ i) (hj : k ≠ j) (f : ℕ → β) : swap i j f k = f k := by
  rw [swap, Function.comp_apply, Equiv.swap_apply_of_ne_of_ne hi hj]

/-- Behind `n` comparisons the cells up to `next` are those up to the pivot, and those behind it
are not. -/
structure Scanned (le : β → β → Bool) (pivot first n : ℕ) (f : ℕ → β) (acc : (ℕ → β) × ℕ) :
    Prop where
  next : first ≤ acc.2 ∧ acc.2 ≤ first + n
  rearranges : Rearranges first n f acc.1
  below : ∀ i, first ≤ i → i < acc.2 → le (acc.1 i) (f pivot) = true
  above : ∀ i, acc.2 ≤ i → i < first + n → le (acc.1 i) (f pivot) = false

theorem Scanned.scanStep {acc : (ℕ → β) × ℕ} (h : Scanned le pivot first n f acc)
    (hpivot : first + n < pivot) :
    Scanned le pivot first (n + 1) f (scanStep le pivot acc (first + n)) := by
  have hlow := h.next.1
  have hhigh := h.next.2
  have hkeepPivot : acc.1 pivot = f pivot := h.rearranges.outside (.inr (by omega))
  have hwider : Rearranges first (n + 1) f acc.1 := h.rearranges.mono le_rfl (by omega)
  rw [PivotSort.scanStep, hkeepPivot]
  split_ifs with hle
  · refine ⟨⟨by omega, by omega⟩,
      hwider.trans (rearranges_swap ⟨hlow, by omega⟩ ⟨by omega, by omega⟩ _), ?_, ?_⟩
    · intro i hi hnext
      dsimp only at hnext ⊢
      by_cases heq : i = acc.2
      · rw [heq, swap_left]
        exact hle
      · rw [swap_of_ne heq (by omega)]
        exact h.below i hi (by omega)
    · intro i hi hnext
      dsimp only at hi ⊢
      by_cases heq : i = first + n
      · rw [heq, swap_right]
        exact h.above acc.2 le_rfl (by omega)
      · rw [swap_of_ne (by omega) heq]
        exact h.above i (by omega) (by omega)
  · refine ⟨⟨hlow, by omega⟩, hwider, h.below, fun i hi hnext => ?_⟩
    by_cases heq : i = first + n
    · rw [heq]
      exact Bool.eq_false_iff.mpr hle
    · exact h.above i hi (by omega)

theorem scanned_scan (le : β → β → Bool) (f : ℕ → β) (hpivot : first + n ≤ pivot) :
    Scanned le pivot first n f (scan le pivot first n f) := by
  induction n with
  | zero =>
    refine ⟨⟨le_rfl, le_rfl⟩, .refl _ _ _, fun i hi hnext => ?_, fun i hi hnext => ?_⟩
    · exact absurd (show i < first from hnext) (by omega)
    · exact absurd (show first ≤ i from hi) (by omega)
  | succ n ih =>
    rw [scan, List.range'_concat, List.foldl_concat, Nat.one_mul]
    exact (ih (by omega)).scanStep (by omega)

/-- The pivot goes between the cells on its two sides; the second component is its place. -/
def partition (le : β → β → Bool) (first n : ℕ) (f : ℕ → β) : (ℕ → β) × ℕ :=
  let scanned := scan le (first + n) first n f
  (swap (first + n) scanned.2 scanned.1, scanned.2)

structure Partitioned (le : β → β → Bool) (first n : ℕ) (f : ℕ → β) (acc : (ℕ → β) × ℕ) :
    Prop where
  place : first ≤ acc.2 ∧ acc.2 ≤ first + n
  rearranges : Rearranges first (n + 1) f acc.1
  below : ∀ i, first ≤ i → i < acc.2 → le (acc.1 i) (acc.1 acc.2) = true
  above : ∀ i, acc.2 < i → i ≤ first + n → le (acc.1 i) (acc.1 acc.2) = false

theorem partitioned_partition (le : β → β → Bool) (first n : ℕ) (f : ℕ → β) :
    Partitioned le first n f (partition le first n f) := by
  have hscanned : Scanned le (first + n) first n f _ := scanned_scan le f le_rfl
  obtain ⟨⟨hlow, hhigh⟩, hrearranges, hbelow, habove⟩ := hscanned
  set acc := scan le (first + n) first n f with hacc
  have hpivot : acc.1 (first + n) = f (first + n) := hrearranges.outside (.inr le_rfl)
  have hplace : (partition le first n f).1 (partition le first n f).2 = f (first + n) := by
    change swap (first + n) acc.2 acc.1 acc.2 = _
    rw [swap_right, hpivot]
  refine ⟨⟨hlow, hhigh⟩, ?_, fun i hi hnext => ?_, fun i hi hnext => ?_⟩
  · have hwider : Rearranges first (n + 1) f acc.1 := hrearranges.mono le_rfl (by omega)
    exact hwider.trans (rearranges_swap ⟨by omega, by omega⟩ ⟨hlow, by omega⟩ _)
  · rw [hplace]
    change i < acc.2 at hnext
    change le (swap (first + n) acc.2 acc.1 i) _ = _
    rw [swap_of_ne (by omega) (by omega)]
    exact hbelow i hi hnext
  · rw [hplace]
    change acc.2 < i at hi
    change le (swap (first + n) acc.2 acc.1 i) _ = _
    by_cases heq : i = first + n
    · rw [heq, swap_left]
      exact habove acc.2 le_rfl (by omega)
    · rw [swap_of_ne heq (by omega)]
      exact habove i hi.le (by omega)

def sort (le : β → β → Bool) (first count : ℕ) (f : ℕ → β) : ℕ → β :=
  if count < 2 then f
  else
    let parted := partition le first (count - 1) f
    sort le (parted.2 + 1) (count - (parted.2 - first) - 1)
      (sort le first (parted.2 - first) parted.1)
termination_by count
decreasing_by
  all_goals
    have hplace := (partitioned_partition le first (count - 1) f).place
    omega

theorem rearranges_sort (le : β → β → Bool) (first count : ℕ) (f : ℕ → β) :
    Rearranges first count f (sort le first count f) := by
  induction count using Nat.strong_induction_on generalizing first f with | _ count ih =>
  rw [sort]
  split_ifs with hlarge
  · exact .refl _ _ _
  · set parted := partition le first (count - 1) f with hparted
    have hplaced : Partitioned le first (count - 1) f parted := partitioned_partition ..
    obtain ⟨hlow, hhigh⟩ := hplaced.place
    have hpart : Rearranges first count f parted.1 := hplaced.rearranges.mono le_rfl (by omega)
    have hleft := ih (parted.2 - first) (by omega) first parted.1
    have hright := ih (count - (parted.2 - first) - 1) (by omega) (parted.2 + 1)
      (sort le first (parted.2 - first) parted.1)
    have hleftWider := hleft.mono (le_refl first) (show _ ≤ first + count by omega)
    have hrightWider := hright.mono (show first ≤ _ by omega) (show _ ≤ first + count by omega)
    exact (hpart.trans hleftWider).trans hrightWider

/-- A comparison that orders all keys, where different keys may be equal to it. -/
structure Orders (le : β → β → Bool) : Prop where
  trans : ∀ a b c, le a b = true → le b c = true → le a c = true
  total : ∀ a b, le a b = true ∨ le b a = true

theorem Orders.of_not (ho : Orders le) {a b : β} (h : le a b = false) : le b a = true := by
  rcases ho.total a b with hab | hba
  · rw [hab] at h
    cases h
  · exact hba

/-- What is sorted on both sides of a pivot between them is sorted. -/
theorem sortedIn_of_parts (ho : Orders le) (place n : ℕ)
    (hleft : SortedIn le first (place - first) f) (hright : SortedIn le (place + 1) n f)
    (hbelow : ∀ i, first ≤ i → i < place → le (f i) (f place) = true)
    (habove : ∀ i, place < i → i < place + 1 + n → le (f place) (f i) = true)
    (hcount : first + count = place + 1 + n) : SortedIn le first count f := by
  intro i j hi hij hj
  rcases Nat.lt_trichotomy i place with hlt | rfl | hgt
  · rcases Nat.lt_trichotomy j place with hjlt | rfl | hjgt
    · exact hleft i j hi hij (by omega)
    · exact hbelow i hi hlt
    · exact ho.trans _ _ _ (hbelow i hi hlt) (habove j hjgt (by omega))
  · exact habove j hij (by omega)
  · exact hright i j hgt hij (by omega)

theorem sortedIn_sort (ho : Orders le) (first count : ℕ) (f : ℕ → β) :
    SortedIn le first count (sort le first count f) := by
  induction count using Nat.strong_induction_on generalizing first f with | _ count ih =>
  rw [sort]
  split_ifs with hlarge
  · intro i j hi hij hj
    omega
  · set parted := partition le first (count - 1) f with hparted
    have hplaced : Partitioned le first (count - 1) f parted := partitioned_partition ..
    obtain ⟨hlow, hhigh⟩ := hplaced.place
    set rest := count - (parted.2 - first) - 1 with hrest
    set left := sort le first (parted.2 - first) parted.1 with hleft
    set right := sort le (parted.2 + 1) rest left with hright
    have hsortedLeft : SortedIn le first (parted.2 - first) left := ih _ (by omega) _ _
    have hsortedRight : SortedIn le (parted.2 + 1) rest right := ih _ (by omega) _ _
    have hrearrangesLeft : Rearranges first (parted.2 - first) parted.1 left :=
      rearranges_sort le _ _ _
    have hrearrangesRight : Rearranges (parted.2 + 1) rest left right := rearranges_sort le _ _ _
    have hkeepRight (i : ℕ) (hi : i ≤ parted.2) : right i = left i :=
      hrearrangesRight.outside (.inl (by omega))
    have hkeepLeft (i : ℕ) (hi : parted.2 ≤ i) : left i = parted.1 i :=
      hrearrangesLeft.outside (.inr (by omega))
    have hpivot : right parted.2 = parted.1 parted.2 :=
      (hkeepRight _ le_rfl).trans (hkeepLeft _ le_rfl)
    refine sortedIn_of_parts ho parted.2 rest ?_ hsortedRight ?_ ?_ (by omega)
    · intro i j hi hij hj
      rw [hkeepRight i (by omega), hkeepRight j (by omega)]
      exact hsortedLeft i j hi hij hj
    · intro i hi hlt
      obtain ⟨k, hk, hkhigh, heq⟩ := hrearrangesLeft.inside hi (by omega)
      rw [hpivot, hkeepRight i hlt.le, heq]
      exact hplaced.below k hk (by omega)
    · intro i hi hlt
      obtain ⟨k, hk, hkhigh, heq⟩ := hrearrangesRight.inside hi hlt
      rw [hpivot, heq, hkeepLeft k (by omega)]
      exact ho.of_not (hplaced.above k (by omega) (by omega))

end PivotSort
