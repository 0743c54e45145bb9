import Mathlib.Tactic

/-!
# Copying upwards

A block of memory is copied chunk by chunk, from its start on, in an address space that wraps
around. Whatever the memory holds, the copy is right if and only if no chunk that is still to be
read has been written: the destination does not start inside of the block, unless the block is
one chunk or is copied onto itself.
-/

namespace ForwardCopy

variable {w : ℕ} {β : Type*}

def copyChunk (mem : BitVec w → β) (src dst : BitVec w) (c : ℕ) : BitVec w → β := fun x =>
  if (x - dst).toNat < c then mem (src + (x - dst)) else mem x

/-- The memory after `k` chunks. -/
def copyUp (mem : BitVec w → β) (src dst : BitVec w) (c : ℕ) : ℕ → BitVec w → β
  | 0 => mem
  | k + 1 => copyChunk (copyUp mem src dst c k) (src + BitVec.ofNat w (c * k))
      (dst + BitVec.ofNat w (c * k)) c

variable {mem : BitVec w → β} {src dst x : BitVec w} {c k : ℕ}

/-- The offset of an address in the chunk that is copied next. -/
theorem sub_chunk_toNat (hfit : c * (k + 1) ≤ 2 ^ w) :
    (x - (dst + BitVec.ofNat w (c * k))).toNat < c ↔
      c * k ≤ (x - dst).toNat ∧ (x - dst).toNat < c * (k + 1) := by
  have hx := (x - dst).isLt
  have hsub : x - (dst + BitVec.ofNat w (c * k)) = (x - dst) - BitVec.ofNat w (c * k) :=
    (BitVec.sub_sub x dst _).symm
  rw [Nat.mul_succ] at hfit ⊢
  rcases Nat.eq_zero_or_pos c with rfl | hc
  · simp
  · have hlt : c * k < 2 ^ w := by omega
    rw [hsub, BitVec.toNat_sub, BitVec.toNat_ofNat, Nat.mod_eq_of_lt hlt]
    rcases le_or_gt (c * k) (x - dst).toNat with hle | hgt
    · have hvalue : 2 ^ w - c * k + (x - dst).toNat = (x - dst).toNat - c * k + 2 ^ w := by omega
      rw [hvalue, Nat.add_mod_right, Nat.mod_eq_of_lt (by omega)]
      omega
    · rw [Nat.mod_eq_of_lt (by omega)]
      omega

theorem chunk_source : src + BitVec.ofNat w (c * k) + (x - (dst + BitVec.ofNat w (c * k))) =
    src + (x - dst) := by
  rw [← BitVec.sub_sub]
  grind

/-- The destination is where no chunk that is still to be read lies. -/
def Apart (src dst : BitVec w) (c k : ℕ) : Prop :=
  dst = src ∨ k ≤ 1 ∨ c * k ≤ (dst - src).toNat

theorem Apart.of_succ (h : Apart src dst c (k + 1)) : Apart src dst c k := by
  rcases h with hsame | hone | hfar
  · exact .inl hsame
  · exact .inr (.inl (by omega))
  · refine .inr (.inr (le_trans ?_ hfar))
    exact Nat.mul_le_mul_left c (Nat.le_succ k)

/-- A cell of the next chunk has not been written, unless the block is copied onto itself. -/
theorem Apart.not_written (hfit : c * (k + 1) ≤ 2 ^ w) (h : Apart src dst c (k + 1))
    (hne : dst ≠ src) (hlow : c * k ≤ (x - src).toNat) (hhigh : (x - src).toNat < c * (k + 1)) :
    ¬(x - dst).toNat < c * k := by
  have hx := (x - src).isLt
  have hsub : x - dst = (x - src) - (dst - src) := by grind
  have hpos : 0 < (dst - src).toNat := by
    refine Nat.pos_of_ne_zero fun hzero => hne ?_
    have hdiff : dst - src = 0 := BitVec.eq_of_toNat_eq hzero
    grind
  have hd := (dst - src).isLt
  rcases h with hsame | hone | hfar
  · exact absurd hsame hne
  · obtain rfl : k = 0 := by omega
    rw [Nat.mul_zero]
    exact Nat.not_lt_zero _
  · rw [hsub, BitVec.toNat_sub, Nat.mod_eq_of_lt (by omega)]
    omega

/-- The memory after some chunks, if they are apart: the block at its destination, and everything
else as it was. -/
theorem copyUp_eq (hfit : c * k ≤ 2 ^ w) (h : Apart src dst c k) :
    copyUp mem src dst c k x =
      if (x - dst).toNat < c * k then mem (src + (x - dst)) else mem x := by
  induction k generalizing x with
  | zero =>
    rw [Nat.mul_zero, if_neg (Nat.not_lt_zero _)]
    rfl
  | succ k ih =>
    have hle : c * k ≤ c * (k + 1) := Nat.mul_le_mul_left c (Nat.le_succ k)
    have hbefore : ∀ y, copyUp mem src dst c k y = _ := fun y =>
      @ih y (hle.trans hfit) h.of_succ
    rw [copyUp, copyChunk, chunk_source]
    by_cases hchunk : (x - (dst + BitVec.ofNat w (c * k))).toNat < c
    · obtain ⟨hlow, hhigh⟩ := (sub_chunk_toNat hfit).mp hchunk
      have hoffset : src + (x - dst) - src = x - dst := by grind
      rw [if_pos hchunk, if_pos hhigh, hbefore]
      by_cases hsame : dst = src
      · subst hsame
        have hself : dst + (x - dst) = x := by grind
        rw [hself, hself]
        split <;> rfl
      · refine if_neg (h.not_written hfit hsame ?_ ?_)
        · rw [hoffset]
          exact hlow
        · rw [hoffset]
          exact hhigh
    · rw [if_neg hchunk, hbefore]
      have hiff := mt (sub_chunk_toNat hfit).mpr hchunk
      by_cases hlow : (x - dst).toNat < c * k
      · rw [if_pos hlow, if_pos (hlow.trans_le hle)]
      · rw [if_neg hlow, if_neg fun hhigh => hiff ⟨Nat.not_lt.mp hlow, hhigh⟩]

/-- Once the memory holds one thing everywhere, it is not changed any more. -/
theorem copyUp_const {b : β} (hfirst : ∀ x, copyUp mem src dst c 1 x = b) (hk : 1 ≤ k) :
    ∀ x, copyUp mem src dst c k x = b := by
  induction k, hk using Nat.le_induction with
  | base => exact hfirst
  | succ k hk ih =>
    intro x
    rw [copyUp, copyChunk]
    split
    · exact ih _
    · exact ih _

/-- The first chunk overwrites a cell that is read later, if the chunks are not apart. -/
theorem exists_overwritten (hc : 0 < c) (hfit : c * k ≤ 2 ^ w) (h : ¬Apart src dst c k) :
    1 ≤ k ∧ ∃ j, c ≤ j ∧ j < c * k ∧ (src + BitVec.ofNat w j - dst).toNat < c := by
  rw [Apart, not_or, not_or] at h
  obtain ⟨hne, hk, hnear⟩ := h
  have hpos : 0 < (dst - src).toNat := by
    refine Nat.pos_of_ne_zero fun hzero => hne ?_
    have hdiff : dst - src = 0 := BitVec.eq_of_toNat_eq hzero
    grind
  have htwo : c * 2 ≤ c * k := Nat.mul_le_mul_left c (by omega)
  have hd := (dst - src).isLt
  refine ⟨by omega, max c (dst - src).toNat, le_max_left _ _, by omega, ?_⟩
  have hsub : src + BitVec.ofNat w (max c (dst - src).toNat) - dst =
      BitVec.ofNat w (max c (dst - src).toNat) - (dst - src) := by grind
  have hcell : (BitVec.ofNat w (max c (dst - src).toNat)).toNat = max c (dst - src).toNat := by
    rw [BitVec.toNat_ofNat, Nat.mod_eq_of_lt (by omega)]
  rw [hsub, BitVec.toNat_sub, hcell]
  have hvalue : 2 ^ w - (dst - src).toNat + max c (dst - src).toNat =
      max c (dst - src).toNat - (dst - src).toNat + 2 ^ w := by omega
  rw [hvalue, Nat.add_mod_right, Nat.mod_eq_of_lt (by omega)]
  omega

theorem copyUp_exact_iff [Nontrivial β] (hc : 0 < c) (hfit : c * k ≤ 2 ^ w) :
    (∀ (mem : BitVec w → β) (i : ℕ), i < c * k →
      copyUp mem src dst c k (dst + BitVec.ofNat w i) = mem (src + BitVec.ofNat w i)) ↔
      Apart src dst c k := by
  have hoffset : ∀ (base : BitVec w) (i : ℕ), i < c * k →
      base + BitVec.ofNat w i - base = BitVec.ofNat w i ∧ (BitVec.ofNat w i).toNat = i := by
    intro base i hi
    refine ⟨by grind, ?_⟩
    rw [BitVec.toNat_ofNat, Nat.mod_eq_of_lt (by omega)]
  constructor
  · intro hexact
    by_contra hnot
    obtain ⟨hk, j, hcj, hj, hoverwritten⟩ := exists_overwritten hc hfit hnot
    obtain ⟨a, b, hab⟩ := exists_pair_ne β
    classical
    let mem : BitVec w → β := fun x => if x = src + BitVec.ofNat w j then a else b
    -- the only cell that differs is overwritten by one of the others
    have hfirst : ∀ x, copyUp mem src dst c 1 x = b := by
      intro x
      rw [copyUp, copyUp, copyChunk, chunk_source, Nat.mul_zero, BitVec.add_zero]
      split
      · next hlt =>
        refine if_neg fun heq => ?_
        have hj' : x - dst = BitVec.ofNat w j := by grind
        rw [hj', (hoffset src j hj).2] at hlt
        omega
      · next hge =>
        refine if_neg fun heq => hge ?_
        rw [heq]
        exact hoverwritten
    have hlost := hexact mem j hj
    rw [copyUp_const hfirst hk] at hlost
    exact hab ((if_pos rfl).symm.trans hlost.symm)
  · intro hapart mem i hi
    rw [copyUp_eq hfit hapart, (hoffset dst i hi).1, (hoffset dst i hi).2, if_pos hi]

end ForwardCopy
