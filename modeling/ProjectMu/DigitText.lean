import Mathlib.Tactic
import Mathlib.Data.Nat.Digits.Lemmas

/-!
# Numbers read digit by digit

A reader takes the digits of a number one after the other and gives up at a character that is no
digit, or once the value exceeds a bound. Digits behind a number only make it larger, so that it
gives up exactly if the whole number exceeds the bound. Leading zeros are no obstacle.
-/

namespace DigitText

variable {α : Type*} (digit : α → Option ℕ) (base bound : ℕ)

/-- The number with one more digit behind it. -/
def appendDigit (v : ℕ) (c : α) : Option ℕ :=
  (digit c).bind fun d => if v * base + d ≤ bound then some (v * base + d) else none

def readDigits (v : ℕ) (text : List α) : Option ℕ := text.foldlM (appendDigit digit base bound) v

/-- The number that a text stands for. -/
def number (text : List α) : Option ℕ :=
  if text = [] then none else readDigits digit base bound 0 text

variable {digit base bound} {v n : ℕ} {text : List α} {c : α}

@[simp] theorem readDigits_nil : readDigits digit base bound v [] = some v := rfl

@[simp] theorem readDigits_cons :
    readDigits digit base bound v (c :: text) =
      (appendDigit digit base bound v c).bind fun w => readDigits digit base bound w text := by
  simp [readDigits]

theorem number_cons : number digit base bound (c :: text) =
    readDigits digit base bound 0 (c :: text) := rfl

theorem appendDigit_eq_some_iff : appendDigit digit base bound v c = some n ↔
    ∃ d, digit c = some d ∧ v * base + d ≤ bound ∧ n = v * base + d := by
  unfold appendDigit
  cases hd : digit c with
  | none => simp
  | some d => simp [eq_comm]

theorem readDigits_le (hv : v ≤ bound) (h : readDigits digit base bound v text = some n) :
    n ≤ bound := by
  induction text generalizing v with
  | nil => exact Option.some.inj h ▸ hv
  | cons c text ih =>
    rw [readDigits_cons] at h
    obtain ⟨w, hw, hrest⟩ := Option.bind_eq_some_iff.mp h
    obtain ⟨d, -, hle, rfl⟩ := appendDigit_eq_some_iff.mp hw
    exact ih hle hrest

theorem number_le (h : number digit base bound text = some n) : n ≤ bound := by
  unfold number at h
  split_ifs at h
  exact readDigits_le (Nat.zero_le _) h

/-- What the reader has in the end is what the digits are in the base. -/
theorem readDigits_eq_some_iff (hbase : 0 < base) (hv : v ≤ bound) :
    readDigits digit base bound v text = some n ↔
      ∃ ds, text.mapM digit = some ds ∧ n = v * base ^ ds.length + Nat.ofDigits base ds.reverse ∧
        n ≤ bound := by
  induction text generalizing v with
  | nil =>
    simp only [readDigits_nil, List.mapM_nil, Option.pure_def, Option.some.injEq]
    constructor
    · rintro rfl
      exact ⟨[], rfl, by simp, hv⟩
    · rintro ⟨ds, rfl, rfl, -⟩
      simp
  | cons c text ih =>
    have hvalue (d : ℕ) (ds : List ℕ) :
        (v * base + d) * base ^ ds.length + Nat.ofDigits base ds.reverse =
          v * base ^ (d :: ds).length + Nat.ofDigits base (d :: ds).reverse := by
      rw [List.reverse_cons, Nat.ofDigits_append, List.length_reverse, Nat.ofDigits_singleton,
        List.length_cons, pow_succ]
      ring
    rw [readDigits_cons, Option.bind_eq_some_iff]
    constructor
    · rintro ⟨w, hw, hrest⟩
      obtain ⟨d, hd, hle, rfl⟩ := appendDigit_eq_some_iff.mp hw
      obtain ⟨ds, hds, hn, hbound⟩ := (ih hle).mp hrest
      exact ⟨d :: ds, by simp [hd, hds], hn.trans (hvalue d ds), hbound⟩
    · rintro ⟨ds, hds, hn, hbound⟩
      simp only [List.mapM_cons, Option.pure_def, Option.bind_eq_bind,
        Option.bind_eq_some_iff] at hds
      obtain ⟨d, hd, rest, hrest, hcons⟩ := hds
      obtain rfl := Option.some.inj hcons
      have hle : v * base + d ≤ bound := by
        have hpow := Nat.le_mul_of_pos_right (v * base + d) (pow_pos hbase rest.length)
        have heq := hvalue d rest
        omega
      exact ⟨_, appendDigit_eq_some_iff.mpr ⟨d, hd, hle, rfl⟩,
        (ih hle).mpr ⟨rest, hrest, hn.trans (hvalue d rest).symm, hbound⟩⟩

/-- A text stands for a number if there are digits, and nothing else, of a value up to the
bound. -/
theorem number_eq_some_iff (hbase : 0 < base) :
    number digit base bound text = some n ↔
      text ≠ [] ∧ ∃ ds, text.mapM digit = some ds ∧ n = Nat.ofDigits base ds.reverse ∧
        n ≤ bound := by
  unfold number
  split_ifs with hnil
  · simp [hnil]
  · rw [readDigits_eq_some_iff hbase (Nat.zero_le _)]
    simp [hnil]

/-- The digits of a number, with a zero for zero. -/
def numeral (character : ℕ → α) (base n : ℕ) : List α :=
  if n = 0 then [character 0] else ((Nat.digits base n).map character).reverse

theorem numeral_ne_nil (character : ℕ → α) (base n : ℕ) : numeral character base n ≠ [] := by
  unfold numeral
  split_ifs with h
  · exact List.cons_ne_nil _ _
  · simpa [Nat.digits_eq_nil_iff_eq_zero] using h

theorem mem_numeral {character : ℕ → α} (hbase : 1 < base) (h : c ∈ numeral character base n) :
    ∃ d < base, c = character d := by
  unfold numeral at h
  split_ifs at h with hn
  · exact ⟨0, by omega, List.mem_singleton.mp h⟩
  · obtain ⟨d, hd, rfl⟩ := List.mem_map.mp (List.mem_reverse.mp h)
    exact ⟨d, Nat.digits_lt_base hbase hd, rfl⟩

theorem number_numeral {character : ℕ → α} (hbase : 1 < base)
    (hdigit : ∀ d < base, digit (character d) = some d) (hn : n ≤ bound) :
    number digit base bound (numeral character base n) = some n := by
  rw [number_eq_some_iff (by omega)]
  refine ⟨numeral_ne_nil character base n, ?_⟩
  have hmap (ds : List ℕ) (hds : ∀ d ∈ ds, d < base) : (ds.map character).mapM digit = some ds := by
    induction ds with
    | nil => rfl
    | cons d ds ih =>
      rw [List.forall_mem_cons] at hds
      simp [hdigit d hds.1, ih hds.2]
  unfold numeral
  split_ifs with h
  · exact ⟨[0], hmap [0] (by simp; omega), by simp [h], hn⟩
  · refine ⟨(Nat.digits base n).reverse, ?_, ?_, hn⟩
    · rw [← List.map_reverse]
      apply hmap
      intro d hd
      exact Nat.digits_lt_base hbase (List.mem_reverse.mp hd)
    · rw [List.reverse_reverse, Nat.ofDigits_digits]

/-- The pieces between separators hold characters of the text, but no separator. -/
theorem of_mem_splitOn [DecidableEq α] {separator : α} {piece : List α}
    (h : piece ∈ text.splitOn separator) : separator ∉ piece ∧ piece ⊆ text := by
  induction text generalizing piece with
  | nil =>
    rw [List.splitOn_nil, List.mem_singleton] at h
    subst h
    exact ⟨List.not_mem_nil, List.Subset.refl _⟩
  | cons c text ih =>
    rw [List.splitOn_cons_eq_if_modifyHead] at h
    obtain ⟨first, rest, hsplit⟩ := List.exists_cons_of_ne_nil (List.splitOn_ne_nil separator text)
    rw [hsplit] at h ih
    split_ifs at h with hc
    · rcases List.mem_cons.mp h with rfl | hmem
      · exact ⟨List.not_mem_nil, List.nil_subset _⟩
      · obtain ⟨hnot, hsub⟩ := ih hmem
        exact ⟨hnot, List.Subset.trans hsub (List.subset_cons_self _ _)⟩
    · rcases List.mem_cons.mp h with rfl | hmem
      · obtain ⟨hnot, hsub⟩ := ih List.mem_cons_self
        refine ⟨?_, List.cons_subset_cons c hsub⟩
        rw [List.mem_cons, not_or]
        exact ⟨fun heq => hc (by simp [heq]), hnot⟩
      · obtain ⟨hnot, hsub⟩ := ih (List.mem_cons_of_mem _ hmem)
        exact ⟨hnot, List.Subset.trans hsub (List.subset_cons_self _ _)⟩

theorem mem_intercalate {separator : α} {pieces : List (List α)}
    (h : c ∈ [separator].intercalate pieces) : c = separator ∨ ∃ p ∈ pieces, c ∈ p := by
  induction pieces with
  | nil => exact absurd h List.not_mem_nil
  | cons p pieces ih =>
    cases pieces with
    | nil => exact Or.inr ⟨p, List.mem_cons_self, by simpa using h⟩
    | cons p' pieces =>
      rw [List.intercalate_cons_cons, List.append_assoc, List.mem_append, List.mem_append,
        List.mem_singleton] at h
      rcases h with hfirst | hseparator | hrest
      · exact Or.inr ⟨p, List.mem_cons_self, hfirst⟩
      · exact Or.inl hseparator
      · apply Or.imp_right _ (ih hrest)
        rintro ⟨p'', hmem, hc⟩
        exact ⟨p'', List.mem_cons_of_mem _ hmem, hc⟩

theorem mapM_cons_eq_some_iff {β : Type*} (f : α → Option β) (a : α) (as : List α) {bs : List β} :
    (a :: as).mapM f = some bs ↔ ∃ b, f a = some b ∧ ∃ rest, as.mapM f = some rest ∧
      b :: rest = bs := by
  simp only [List.mapM_cons, Option.pure_def, Option.bind_eq_bind, Option.bind_eq_some_iff,
    Option.some.injEq]

theorem exists_of_mapM {β : Type*} {f : α → Option β} {as : List α} {bs : List β}
    (h : as.mapM f = some bs) : ∀ a ∈ as, ∃ b, f a = some b := by
  induction as generalizing bs with
  | nil => simp
  | cons a as ih =>
    obtain ⟨b, hb, rest, hrest, -⟩ := (mapM_cons_eq_some_iff f a as).mp h
    rw [List.forall_mem_cons]
    exact ⟨⟨b, hb⟩, ih hrest⟩

end DigitText
