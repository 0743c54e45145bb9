import ProjectMu.Arm64Machine

/-!
# Loops over the words of a memory range

`forWords` is the loop that takes an address from the start of a range to its end in steps of
four bytes, with a body that works on any state and may leave the loop. Where the range in
whole words does not reach the end of the address space the loop ends, and a body that only
looks at its own word changes each word once.
-/

namespace Arm64

variable {m m' : Memory} {a x base : Address} {v : BitVec 64} {i j k n size : ℕ}

theorem offset_sub_offset (a x y : Address) : a + x - (a + y) = x - y := by
  bv_omega

theorem offset_sub (a x : Address) : a + x - a = x := by
  bv_omega

theorem Memory.write_of_le (h : n ≤ (x - a).toNat) : m.write a n v x = m x :=
  if_neg (Nat.not_lt.mpr h)

theorem Memory.write_self (hk : k < n) (hn : n ≤ 8) :
    m.write a n v (a + BitVec.ofNat 64 k) = v.extractLsb' (8 * k) 8 := by
  have hoffset : (a + BitVec.ofNat 64 k - a).toNat = k := by
    rw [offset_sub, BitVec.toNat_ofNat, Nat.mod_eq_of_lt (by omega)]
  rw [Memory.write, hoffset, if_pos hk]

theorem Memory.read32_congr
    (h : ∀ k, k < 4 → m' (a + BitVec.ofNat 64 k) = m (a + BitVec.ofNat 64 k)) :
    m'.read32 a = m.read32 a := by
  have h0 := h 0 (by omega)
  have h1 : m' (a + 1) = m (a + 1) := h 1 (by omega)
  have h2 : m' (a + 2) = m (a + 2) := h 2 (by omega)
  have h3 : m' (a + 3) = m (a + 3) := h 3 (by omega)
  rw [BitVec.add_zero] at h0
  rw [Memory.read32, Memory.read32, h0, h1, h2, h3]

theorem Memory.read64_congr
    (h : ∀ k, k < 8 → m' (a + BitVec.ofNat 64 k) = m (a + BitVec.ofNat 64 k)) :
    m'.read64 a = m.read64 a := by
  have hlow : m'.read32 a = m.read32 a := Memory.read32_congr fun k hk => h k (by omega)
  have hhigh : m'.read32 (a + 4) = m.read32 (a + 4) := by
    refine Memory.read32_congr fun k hk => ?_
    have haddress : a + 4 + BitVec.ofNat 64 k = a + BitVec.ofNat 64 (4 + k) := by
      rw [BitVec.ofNat_add, ← BitVec.add_assoc]
      rfl
    rw [haddress]
    exact h (4 + k) (by omega)
  rw [Memory.read64, Memory.read64, hlow, hhigh]

theorem Memory.read32_write (hk : k + 4 ≤ n) (hn : n ≤ 8) :
    (m.write a n v).read32 (a + BitVec.ofNat 64 k) = v.extractLsb' (8 * k) 32 := by
  have hbyte {j : ℕ} (hj : j < 4) : m.write a n v (a + BitVec.ofNat 64 k + BitVec.ofNat 64 j) =
      v.extractLsb' (8 * (k + j)) 8 := by
    rw [BitVec.add_assoc, ← BitVec.ofNat_add]
    exact Memory.write_self (by omega) hn
  have h0 := hbyte (show 0 < 4 by omega)
  have h1 : m.write a n v (a + BitVec.ofNat 64 k + 1) = _ := hbyte (show 1 < 4 by omega)
  have h2 : m.write a n v (a + BitVec.ofNat 64 k + 2) = _ := hbyte (show 2 < 4 by omega)
  have h3 : m.write a n v (a + BitVec.ofNat 64 k + 3) = _ := hbyte (show 3 < 4 by omega)
  rw [BitVec.add_zero] at h0
  have h32 : v.extractLsb' (8 * (k + 3)) 8 ++ v.extractLsb' (8 * (k + 2)) 8 =
      v.extractLsb' (8 * (k + 2)) 16 :=
    BitVec.extractLsb'_append_extractLsb'_eq_extractLsb' (by omega)
  have h321 : v.extractLsb' (8 * (k + 2)) 16 ++ v.extractLsb' (8 * (k + 1)) 8 =
      v.extractLsb' (8 * (k + 1)) 24 :=
    BitVec.extractLsb'_append_extractLsb'_eq_extractLsb' (by omega)
  have hall : v.extractLsb' (8 * (k + 1)) 24 ++ v.extractLsb' (8 * (k + 0)) 8 =
      v.extractLsb' (8 * k) 32 :=
    BitVec.extractLsb'_append_extractLsb'_eq_extractLsb' (by omega)
  rw [Memory.read32, h0, h1, h2, h3, h32, h321, hall]

theorem Memory.read64_write_self : (m.write a 8 v).read64 a = v := by
  have hlow := @Memory.read32_write m a v 0 8 (by omega) (by omega)
  have hhigh : (m.write a 8 v).read32 (a + 4) = _ :=
    @Memory.read32_write m a v 4 8 (by omega) (by omega)
  rw [BitVec.add_zero] at hlow
  rw [Memory.read64, hlow, hhigh]
  exact (BitVec.extractLsb'_append_extractLsb'_eq_extractLsb' rfl).trans BitVec.extractLsb'_eq_self

theorem Memory.read32_write_self : (m.write a 4 v).read32 a = v.setWidth 32 := by
  have hread := @Memory.read32_write m a v 0 4 (by omega) (by omega)
  rw [BitVec.add_zero] at hread
  exact hread.trans (BitVec.setWidth_eq_extractLsb' (by omega)).symm

def wordCount (size : ℕ) : ℕ := (size + 3) / 4

/-- The range from `base` on, in whole words, ends before the address space does. -/
def Fits (base : Address) (size : ℕ) : Prop := base.toNat + 4 * wordCount size < 2 ^ 64

def word (base : Address) (i : ℕ) : Address := base + BitVec.ofNat 64 (4 * i)

/-- Words from an address on, and zeros around them. -/
def Memory.ofWords (base : Address) (words : List (BitVec 32)) : Memory := fun a =>
  (words.getD ((a - base).toNat / 4) 0).extractLsb' (8 * ((a - base).toNat % 4)) 8

theorem word_zero : word base 0 = base := BitVec.add_zero base

theorem word_toNat (h : base.toNat + 4 * i < 2 ^ 64) :
    (word base i).toNat = base.toNat + 4 * i := by
  rw [word, BitVec.toNat_add, BitVec.toNat_ofNat, Nat.mod_eq_of_lt (show 4 * i < 2 ^ 64 by omega),
    Nat.mod_eq_of_lt h]

theorem word_add_four (base : Address) (k : ℕ) : word (base + 4) k = word base (k + 1) := by
  rw [word, word, Nat.mul_succ, Nat.add_comm, BitVec.ofNat_add, BitVec.add_assoc]
  rfl

theorem word_succ : word base i + 4 = word base (i + 1) := by
  rw [word, word, Nat.mul_succ, BitVec.ofNat_add, ← BitVec.add_assoc]
  rfl

theorem Fits.word_lt_iff (h : Fits base size) (hi : i ≤ wordCount size) :
    word base i < base + BitVec.ofNat 64 size ↔ i < wordCount size := by
  rw [Fits] at h
  have hcount : wordCount size = (size + 3) / 4 := rfl
  rw [BitVec.lt_def, word, BitVec.toNat_add, BitVec.toNat_add, BitVec.toNat_ofNat,
    BitVec.toNat_ofNat]
  rw [Nat.mod_eq_of_lt (show 4 * i < 2 ^ 64 by omega),
    Nat.mod_eq_of_lt (show size < 2 ^ 64 by omega), Nat.mod_eq_of_lt (by omega),
    Nat.mod_eq_of_lt (by omega)]
  omega

/-- Another word of the range lies outside the four bytes of one. -/
theorem Fits.word_apart (h : Fits base size) (hi : i < wordCount size) (hj : j < wordCount size)
    (hij : i ≠ j) (hk : k < 4) :
    4 ≤ (word base j + BitVec.ofNat 64 k - word base i).toNat := by
  rw [Fits] at h
  have hsub : word base j + BitVec.ofNat 64 k - word base i =
      BitVec.ofNat 64 (4 * j + k) - BitVec.ofNat 64 (4 * i) := by
    rw [word, word, BitVec.add_assoc, ← BitVec.ofNat_add, offset_sub_offset]
  rw [hsub, BitVec.toNat_sub, BitVec.toNat_ofNat, BitVec.toNat_ofNat]
  omega

/-- An address outside of the range is outside of each of its words. -/
theorem outside_word (hk : k < wordCount size) (hx : 4 * wordCount size ≤ (x - base).toNat) :
    4 ≤ (x - word base k).toNat := by
  have hlt := (x - base).isLt
  have hsub : x - word base k = x - base - BitVec.ofNat 64 (4 * k) := by
    rw [word]
    bv_omega
  have hoffset : (BitVec.ofNat 64 (4 * k)).toNat = 4 * k :=
    (BitVec.toNat_ofNat ..).trans (Nat.mod_eq_of_lt (by omega))
  rw [hsub, BitVec.toNat_sub_of_le (by rw [BitVec.le_def, hoffset]; omega), hoffset]
  omega

theorem Memory.read32_ofWords {words : List (BitVec 32)} (hi : i < words.length)
    (hlength : 4 * words.length ≤ 2 ^ 64) :
    (Memory.ofWords base words).read32 (word base i) = words[i] := by
  have hbyte {k : ℕ} (hk : k < 4) :
      Memory.ofWords base words (word base i + BitVec.ofNat 64 k) =
        words[i].extractLsb' (8 * k) 8 := by
    have hoffset : (word base i + BitVec.ofNat 64 k - base).toNat = 4 * i + k := by
      rw [word, BitVec.add_assoc, ← BitVec.ofNat_add, offset_sub, BitVec.toNat_ofNat,
        Nat.mod_eq_of_lt (by omega)]
    rw [Memory.ofWords, hoffset, show (4 * i + k) / 4 = i by omega,
      show (4 * i + k) % 4 = k by omega, List.getD_eq_getElem?_getD, List.getElem?_eq_getElem hi,
      Option.getD_some]
  have h0 := hbyte (show 0 < 4 by omega)
  have h1 : Memory.ofWords base words (word base i + 1) = _ := hbyte (show 1 < 4 by omega)
  have h2 : Memory.ofWords base words (word base i + 2) = _ := hbyte (show 2 < 4 by omega)
  have h3 : Memory.ofWords base words (word base i + 3) = _ := hbyte (show 3 < 4 by omega)
  rw [BitVec.add_zero] at h0
  have h32 : words[i].extractLsb' (8 * 3) 8 ++ words[i].extractLsb' (8 * 2) 8 =
      words[i].extractLsb' (8 * 2) 16 :=
    BitVec.extractLsb'_append_extractLsb'_eq_extractLsb' rfl
  have h321 : words[i].extractLsb' (8 * 2) 16 ++ words[i].extractLsb' (8 * 1) 8 =
      words[i].extractLsb' (8 * 1) 24 :=
    BitVec.extractLsb'_append_extractLsb'_eq_extractLsb' rfl
  have hall : words[i].extractLsb' (8 * 1) 24 ++ words[i].extractLsb' (8 * 0) 8 =
      words[i].extractLsb' 0 32 :=
    BitVec.extractLsb'_append_extractLsb'_eq_extractLsb' rfl
  rw [Memory.read32, h0, h1, h2, h3, h32, h321, hall, BitVec.extractLsb'_eq_self]

/-- `for (current = base; current < limit; current += 4)`; the body says with its flag that
it leaves the loop. -/
def forWords {σ : Type*} (body : Address → σ → σ × Bool) (limit : Address) :
    ℕ → Address → σ → Option σ
  | 0, _, _ => none
  | n + 1, current, s =>
    if current < limit then
      if (body current s).2 then some (body current s).1
      else forWords body limit n (current + 4) (body current s).1
    else some s

section
variable {σ : Type*} {body : Address → σ → σ × Bool} {s s' : σ} {limit current : Address}

theorem forWords_of_le (h : ¬current < limit) :
    forWords body limit (n + 1) current s = some s :=
  if_neg h

theorem forWords_leave (h : current < limit) (hleave : (body current s).2 = true) :
    forWords body limit (n + 1) current s = some (body current s).1 := by
  rw [forWords, if_pos h, if_pos hleave]

theorem forWords_next (h : current < limit) (hnext : (body current s).2 = false) :
    forWords body limit (n + 1) current s =
      forWords body limit n (current + 4) (body current s).1 := by
  rw [forWords, if_pos h, hnext]
  exact if_neg Bool.false_ne_true

theorem forWords_ends_from (hfit : Fits base size) (body : Address → σ → σ × Bool) (s : σ)
    (hi : i ≤ wordCount size) (hn : wordCount size - i < n) :
    ∃ s', forWords body (base + BitVec.ofNat 64 size) n (word base i) s = some s' := by
  induction n generalizing i s with
  | zero => exact absurd hn (Nat.not_lt_zero _)
  | succ n ih =>
    rcases Nat.lt_or_ge i (wordCount size) with hlt | hge
    · have hcurrent := (hfit.word_lt_iff hi).mpr hlt
      cases hleave : (body (word base i) s).2 with
      | true => exact ⟨_, forWords_leave hcurrent hleave⟩
      | false =>
        rw [forWords_next hcurrent hleave, word_succ]
        exact ih _ hlt (by omega)
    · exact ⟨s, forWords_of_le fun h => absurd ((hfit.word_lt_iff hi).mp h) (by omega)⟩

theorem forWords_ends (hfit : Fits base size) (body : Address → σ → σ × Bool) (s : σ)
    (hn : wordCount size < n) :
    ∃ s', forWords body (base + BitVec.ofNat 64 size) n base s = some s' := by
  have h := forWords_ends_from hfit body s (Nat.zero_le _) hn
  rwa [word_zero] at h

/-- Where there is a word before the end of the range, the range fits. A range that ends with
the address space has none. -/
def NonWrapping (base : Address) (size : ℕ) : Prop :=
  base < base + BitVec.ofNat 64 size → Fits base size

theorem NonWrapping.of_aligned (hsize : 4 ∣ size) (h : base.toNat + size ≤ 2 ^ 64) :
    NonWrapping base size := by
  intro hlt
  have hcount : wordCount size = (size + 3) / 4 := rfl
  rw [BitVec.lt_def, BitVec.toNat_add, BitVec.toNat_ofNat] at hlt
  rw [Fits]
  omega

theorem forWords_mono (h : forWords body limit n current s = some s') :
    forWords body limit (n + 1) current s = some s' := by
  induction n generalizing current s with
  | zero => cases h
  | succ n ih =>
    by_cases hlt : current < limit
    · cases hleave : (body current s).2 with
      | true => rwa [forWords_leave hlt hleave] at h ⊢
      | false =>
        rw [forWords_next hlt hleave] at h ⊢
        exact ih h
    · rwa [forWords_of_le hlt] at h ⊢

theorem NonWrapping.forWords_ends (h : NonWrapping base size) (body : Address → σ → σ × Bool)
    (s : σ) : ∃ s', ∀ n, wordCount size < n →
      forWords body (base + BitVec.ofNat 64 size) n base s = some s' := by
  have hfirst : ∃ s', forWords body (base + BitVec.ofNat 64 size) (wordCount size + 1) base s =
      some s' := by
    by_cases hlt : base < base + BitVec.ofNat 64 size
    · exact Arm64.forWords_ends (h hlt) body s (Nat.lt_succ_self _)
    · exact ⟨s, forWords_of_le hlt⟩
  obtain ⟨s', hs'⟩ := hfirst
  refine ⟨s', fun n hn => ?_⟩
  induction n, hn using Nat.le_induction with
  | base => exact hs'
  | succ n _ ih => exact forWords_mono ih

/-- What the body keeps at every word, the loop keeps. -/
theorem forWords_keeps {I : σ → Prop} (hfit : Fits base size)
    (hbody : ∀ i s, i < wordCount size → I s → I (body (word base i) s).1)
    (hi : i ≤ wordCount size) (hs : I s)
    (h : forWords body (base + BitVec.ofNat 64 size) n (word base i) s = some s') : I s' := by
  induction n generalizing i s with
  | zero => cases h
  | succ n ih =>
    rcases Nat.lt_or_ge i (wordCount size) with hlt | hge
    · have hcurrent := (hfit.word_lt_iff hi).mpr hlt
      have hnext := hbody i s hlt hs
      cases hleave : (body (word base i) s).2 with
      | true =>
        rw [forWords_leave hcurrent hleave, Option.some_inj] at h
        rwa [← h]
      | false =>
        rw [forWords_next hcurrent hleave, word_succ] at h
        exact ih hlt hnext h
    · rw [forWords_of_le fun h => absurd ((hfit.word_lt_iff hi).mp h) (by omega),
        Option.some_inj] at h
      rwa [← h]

theorem NonWrapping.forWords_keeps {I : σ → Prop} (h : NonWrapping base size)
    (hbody : ∀ i s, i < wordCount size → I s → I (body (word base i) s).1) (hs : I s)
    (hloop : forWords body (base + BitVec.ofNat 64 size) n base s = some s') : I s' := by
  by_cases hlt : base < base + BitVec.ofNat 64 size
  · have hfirst : forWords body (base + BitVec.ofNat 64 size) n (word base 0) s = some s' := by
      rwa [word_zero]
    exact Arm64.forWords_keeps (h hlt) hbody (Nat.zero_le _) hs hfirst
  · cases n with
    | zero => cases hloop
    | succ n =>
      rw [forWords_of_le hlt, Option.some_inj] at hloop
      rwa [← hloop]

end

/-- The body replaces its own word by a function of it and nothing else. -/
structure WordLocal (body : Address → Memory → Memory) (f : BitVec 32 → BitVec 32) : Prop where
  self : ∀ a m, (body a m).read32 a = f (m.read32 a)
  other : ∀ a m x, 4 ≤ (x - a).toNat → body a m x = m x

theorem WordLocal.forWords_from {body : Address → Memory → Memory} {f : BitVec 32 → BitVec 32}
    (hlocal : WordLocal body f) (hfit : Fits base size) (hi : i ≤ wordCount size)
    (h : forWords (fun a m => (body a m, false)) (base + BitVec.ofNat 64 size) n (word base i) m =
      some m') (hj : j < wordCount size) :
    m'.read32 (word base j) =
      if i ≤ j then f (m.read32 (word base j)) else m.read32 (word base j) := by
  induction n generalizing i m with
  | zero => cases h
  | succ n ih =>
    rcases Nat.lt_or_ge i (wordCount size) with hlt | hge
    · have hcurrent := (hfit.word_lt_iff hi).mpr hlt
      rw [forWords_next hcurrent rfl, word_succ] at h
      rw [ih hlt h]
      rcases eq_or_ne j i with rfl | hne
      · rw [if_neg (by omega), if_pos le_rfl, hlocal.self]
      · have hsame : (body (word base i) m).read32 (word base j) = m.read32 (word base j) :=
          Memory.read32_congr fun k hk =>
            hlocal.other _ _ _ (hfit.word_apart hlt hj hne.symm hk)
        rw [hsame]
        split_ifs <;> first | rfl | omega
    · rw [forWords_of_le fun h => absurd ((hfit.word_lt_iff hi).mp h) (by omega),
        Option.some_inj] at h
      rw [h, if_neg (by omega)]

theorem WordLocal.forWords {body : Address → Memory → Memory} {f : BitVec 32 → BitVec 32}
    (hlocal : WordLocal body f) (hfit : Fits base size)
    (h : forWords (fun a m => (body a m, false)) (base + BitVec.ofNat 64 size) n base m = some m')
    (hj : j < wordCount size) : m'.read32 (word base j) = f (m.read32 (word base j)) := by
  have hfirst : Arm64.forWords (fun a m => (body a m, false)) (base + BitVec.ofNat 64 size) n
      (word base 0) m = some m' := by
    rwa [word_zero]
  exact (hlocal.forWords_from hfit (Nat.zero_le _) hfirst hj).trans (if_pos (Nat.zero_le _))

/-- The loop over a circular list of entries with their link at offset 0, for as long as it
does not come back to the head. The body gets the bound of its own loops. -/
def forEntries {σ : Type*} (mem : σ → Memory) (body : ℕ → Address → σ → Option σ)
    (head : Address) : ℕ → Address → σ → Option σ
  | 0, _, _ => none
  | n + 1, entry, s =>
    if entry = head then some s
    else (body n entry s).bind fun s => forEntries mem body head n ((mem s).read64 entry) s

end Arm64
