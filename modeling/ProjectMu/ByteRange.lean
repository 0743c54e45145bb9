import Mathlib

/-!
# Ranges of buffers and of addressable stores

A buffer is a list and a store is a function on addresses. `slice` and `splice`
read and overwrite one range of a buffer, `Store.read` and `Store.write` one range
of a store, and `Store.tear` leaves arbitrary contents in a range and nothing else.
Reads outside an overwritten range are unchanged.
-/

namespace ByteRange

variable {α : Type*}

def slice (l : List α) (off n : ℕ) : List α := (l.drop off).take n

def splice (l : List α) (off : ℕ) (d : List α) : List α :=
  l.take off ++ d ++ l.drop (off + d.length)

theorem getElem?_slice (l : List α) (off n i : ℕ) :
    (slice l off n)[i]? = if i < n then l[off + i]? else none := by
  simp only [slice, List.getElem?_take, List.getElem?_drop]

theorem getElem?_splice (l d : List α) (off i : ℕ) (h : off ≤ l.length) :
    (splice l off d)[i]? =
      if i < off then l[i]? else if i < off + d.length then d[i - off]? else l[i]? := by
  have hlen : (l.take off).length = off := by simp [h]
  simp only [splice, List.append_assoc, List.getElem?_append, hlen, List.getElem?_take,
    List.getElem?_drop]
  split_ifs with h1 h2 h3 h4
  · rfl
  · rfl
  · omega
  · omega
  · congr 1
    omega

@[simp] theorem length_slice (l : List α) (off n : ℕ) :
    (slice l off n).length = min n (l.length - off) := by
  simp [slice]

theorem length_slice_of_le {l : List α} {off n : ℕ} (h : off + n ≤ l.length) :
    (slice l off n).length = n := by
  rw [length_slice]
  omega

theorem length_splice {l d : List α} {off : ℕ} (h : off + d.length ≤ l.length) :
    (splice l off d).length = l.length := by
  simp only [splice, List.length_append, List.length_take, List.length_drop]
  omega

theorem slice_slice (l : List α) (off n k m : ℕ) (h : k + m ≤ n) :
    slice (slice l off n) k m = slice l (off + k) m := by
  ext1 i
  simp only [getElem?_slice, ← Nat.add_assoc]
  split_ifs <;> first | rfl | omega

theorem slice_splice_self {l d : List α} {off : ℕ} (h : off + d.length ≤ l.length) :
    slice (splice l off d) off d.length = d := by
  ext1 i
  rw [getElem?_slice, getElem?_splice l d off (off + i) (by omega)]
  split_ifs with h1 h2 h3
  · omega
  · rw [Nat.add_sub_cancel_left]
  · omega
  · exact (List.getElem?_eq_none (by omega)).symm

theorem slice_splice_disjoint {l d : List α} {off off' n : ℕ} (h : off ≤ l.length)
    (hd : off' + n ≤ off ∨ off + d.length ≤ off') :
    slice (splice l off d) off' n = slice l off' n := by
  ext1 i
  simp only [getElem?_slice]
  by_cases hi : i < n
  · rw [if_pos hi, if_pos hi, getElem?_splice l d off (off' + i) h]
    split_ifs <;> first | rfl | omega
  · rw [if_neg hi, if_neg hi]

/-- Overwriting inside a window is overwriting the window's own contents. -/
theorem slice_splice_within {l d : List α} {off k n : ℕ} (h : off + n ≤ l.length)
    (hk : k + d.length ≤ n) :
    slice (splice l (off + k) d) off n = splice (slice l off n) k d := by
  ext1 i
  have hlen := length_slice_of_le h
  rw [getElem?_splice (slice l off n) d k i (by omega)]
  simp only [getElem?_slice]
  by_cases hi : i < n
  · simp only [if_pos hi]
    rw [getElem?_splice l d (off + k) (off + i) (by omega)]
    by_cases h1 : i < k
    · rw [if_pos (by omega), if_pos h1]
    · by_cases h2 : i < k + d.length
      · rw [if_neg (by omega), if_pos (by omega), if_neg h1, if_pos h2]
        congr 1
        omega
      · rw [if_neg (by omega), if_neg (by omega), if_neg h1, if_neg h2]
  · simp only [if_neg hi]
    rw [if_neg (by omega), if_neg (by omega)]

theorem splice_slice_self (l : List α) (off n : ℕ) (h : off + n ≤ l.length) :
    splice l off (slice l off n) = l := by
  have hlen := length_slice_of_le h
  ext1 i
  rw [getElem?_splice l _ off i (by omega), hlen, getElem?_slice]
  split_ifs with h1 h2 h3
  · rfl
  · congr 1
    omega
  · omega
  · rfl

/-- Two buffers cut into windows of one width agree when every window agrees. -/
theorem eq_of_slices {l m : List α} {n w : ℕ} (hl : l.length = n * w) (hm : m.length = n * w)
    (h : ∀ j < n, slice l (j * w) w = slice m (j * w) w) : l = m := by
  rcases Nat.eq_zero_or_pos w with rfl | hw
  · rw [List.eq_nil_of_length_eq_zero hl, List.eq_nil_of_length_eq_zero hm]
  ext1 i
  by_cases hi : i < n * w
  · have hj : i / w < n := Nat.div_lt_of_lt_mul (by rwa [Nat.mul_comm] at hi)
    have hwin := congrArg (fun s => s[i % w]?) (h (i / w) hj)
    simp only [getElem?_slice, Nat.mod_lt i hw, if_true, Nat.div_add_mod'] at hwin
    exact hwin
  · rw [List.getElem?_eq_none (by omega), List.getElem?_eq_none (by omega)]

theorem window_disjoint {i j w : ℕ} (k : ℕ) (hk : k ≤ w) (h : i ≠ j) :
    i * w + w ≤ j * w ∨ j * w + k ≤ i * w := by
  rcases Nat.lt_or_gt_of_ne h with hlt | hgt
  · left
    calc i * w + w = (i + 1) * w := by ring
      _ ≤ j * w := Nat.mul_le_mul_right w hlt
  · right
    calc j * w + k ≤ j * w + w := by omega
      _ = (j + 1) * w := by ring
      _ ≤ i * w := Nat.mul_le_mul_right w hgt

theorem window_le {j n w k : ℕ} (hj : j < n) (hk : k ≤ w) : j * w + k ≤ n * w := by
  calc j * w + k ≤ j * w + w := by omega
    _ = (j + 1) * w := by ring
    _ ≤ n * w := Nat.mul_le_mul_right w hj

/-- A range of addresses, by its first address and its length. -/
structure Region where
  offset : ℕ
  size : ℕ
  deriving DecidableEq, Repr

namespace Region

protected def Disjoint (r s : Region) : Prop :=
  r.offset + r.size ≤ s.offset ∨ s.offset + s.size ≤ r.offset

instance (r s : Region) : Decidable (r.Disjoint s) := inferInstanceAs (Decidable (_ ∨ _))

theorem ceilDiv_self {w : ℕ} (hw : 0 < w) : w ⌈/⌉ w = 1 := by
  apply Nat.le_antisymm
  · rw [ceilDiv_le_iff_le_mul hw, Nat.mul_one]
  · by_contra hlt
    have hle := (ceilDiv_le_iff_le_mul (b := w) (c := 0) hw).mp (by omega)
    omega

theorem disjoint_comm {r s : Region} : r.Disjoint s ↔ s.Disjoint r := Or.comm

/-- Regions that start at multiples of one block size are disjoint exactly when the block
ranges they occupy are. -/
theorem disjoint_blocks_iff {w : ℕ} (hw : 0 < w) (a b s t : ℕ) :
    Region.Disjoint ⟨a * w, s⟩ ⟨b * w, t⟩ ↔ a + s ⌈/⌉ w ≤ b ∨ b + t ⌈/⌉ w ≤ a := by
  have key (x y r : ℕ) : x * w + r ≤ y * w ↔ x + r ⌈/⌉ w ≤ y := by
    by_cases hxy : x ≤ y
    · obtain ⟨k, rfl⟩ := Nat.exists_eq_add_of_le hxy
      rw [Nat.add_mul, Nat.add_le_add_iff_left, Nat.add_le_add_iff_left,
        ceilDiv_le_iff_le_mul hw, Nat.mul_comm]
    · have hlt : y * w < x * w := Nat.mul_lt_mul_of_pos_right (not_le.mp hxy) hw
      omega
  exact or_congr (key a b s) (key b a t)

end Region

/-- Contents by address. -/
abbrev Store (α : Type*) := ℕ → α

namespace Store

def read (s : Store α) (off n : ℕ) : List α := (List.range n).map (fun i => s (off + i))

def write (s : Store α) (off : ℕ) (d : List α) : Store α :=
  fun a => if off ≤ a then d[a - off]?.getD (s a) else s a

def tear (s : Store α) (r : Region) (junk : ℕ → α) : Store α :=
  fun a => if r.offset ≤ a ∧ a < r.offset + r.size then junk a else s a

@[simp] theorem length_read (s : Store α) (off n : ℕ) : (s.read off n).length = n := by
  simp [read]

theorem getElem?_read (s : Store α) (off n i : ℕ) :
    (s.read off n)[i]? = if i < n then some (s (off + i)) else none := by
  by_cases hi : i < n
  · simp [read, hi]
  · rw [if_neg hi, List.getElem?_eq_none (by rw [length_read]; omega)]

theorem read_congr {s s' : Store α} {off n : ℕ} (h : ∀ a, off ≤ a → a < off + n → s a = s' a) :
    s.read off n = s'.read off n := by
  apply List.map_congr_left
  intro i hi
  have hlt := List.mem_range.mp hi
  exact h (off + i) (by omega) (by omega)

theorem write_of_not_mem {s : Store α} {off a : ℕ} {d : List α}
    (h : a < off ∨ off + d.length ≤ a) : s.write off d a = s a := by
  unfold write
  split_ifs with ha
  · rw [List.getElem?_eq_none (by omega)]
    rfl
  · rfl

theorem tear_of_not_mem {s : Store α} {r : Region} {junk : ℕ → α} {a : ℕ}
    (h : a < r.offset ∨ r.offset + r.size ≤ a) : s.tear r junk a = s a := by
  unfold tear
  rw [if_neg (by omega)]

theorem slice_read (s : Store α) (off n k m : ℕ) (h : k + m ≤ n) :
    slice (s.read off n) k m = s.read (off + k) m := by
  ext1 i
  simp only [getElem?_slice, getElem?_read, Nat.add_assoc]
  split_ifs <;> first | rfl | omega

theorem read_write_self (s : Store α) (off : ℕ) (d : List α) :
    (s.write off d).read off d.length = d := by
  ext1 i
  rw [getElem?_read]
  by_cases hi : i < d.length
  · simp [write, hi]
  · rw [if_neg hi, List.getElem?_eq_none (by omega)]

/-- Write several pieces, each an address and its data, one after the other. -/
def writeAll (s : Store α) (pieces : List (ℕ × List α)) : Store α :=
  pieces.foldl (fun s piece => s.write piece.1 piece.2) s

/-- The two stores have the same contents in a region. -/
def AgreeOn (s s' : Store α) (r : Region) : Prop :=
  ∀ a, r.offset ≤ a → a < r.offset + r.size → s a = s' a

theorem AgreeOn.refl (s : Store α) (r : Region) : s.AgreeOn s r := fun _ _ _ => rfl

theorem AgreeOn.symm {s s' : Store α} {r : Region} (h : s.AgreeOn s' r) : s'.AgreeOn s r :=
  fun a hlo hhi => (h a hlo hhi).symm

theorem AgreeOn.trans {s t u : Store α} {r : Region} (h : s.AgreeOn t r) (h' : t.AgreeOn u r) :
    s.AgreeOn u r :=
  fun a hlo hhi => (h a hlo hhi).trans (h' a hlo hhi)

theorem AgreeOn.read {s s' : Store α} {r : Region} (h : s.AgreeOn s' r) {n : ℕ}
    (hn : n ≤ r.size) : s.read r.offset n = s'.read r.offset n :=
  read_congr (fun a hlo hhi => h a hlo (by omega))

theorem agreeOn_write {s : Store α} {off : ℕ} {d : List α} {r : Region}
    (h : Region.Disjoint ⟨off, d.length⟩ r) : (s.write off d).AgreeOn s r := by
  intro a hlo hhi
  apply write_of_not_mem
  unfold Region.Disjoint at h
  dsimp only at h
  omega

theorem agreeOn_tear {s : Store α} {r' r : Region} {junk : ℕ → α} (h : r'.Disjoint r) :
    (s.tear r' junk).AgreeOn s r := by
  intro a hlo hhi
  apply tear_of_not_mem
  unfold Region.Disjoint at h
  omega

theorem read_tear_self (s : Store α) (r : Region) (junk : ℕ → α) :
    (s.tear r junk).read r.offset r.size = Store.read junk r.offset r.size := by
  apply read_congr
  intro a hlo hhi
  unfold tear
  rw [if_pos ⟨hlo, hhi⟩]

def pieceRegion (piece : ℕ × List α) : Region := ⟨piece.1, piece.2.length⟩

theorem agreeOn_writeAll {pieces : List (ℕ × List α)} {r : Region} (s : Store α)
    (h : ∀ piece ∈ pieces, (pieceRegion piece).Disjoint r) : (s.writeAll pieces).AgreeOn s r := by
  induction pieces generalizing s with
  | nil => exact AgreeOn.refl s r
  | cons piece pieces ih =>
    have hrest := ih (s.write piece.1 piece.2) (fun q hq => h q (List.mem_cons_of_mem _ hq))
    exact hrest.trans (agreeOn_write (h piece List.mem_cons_self))

/-- Pieces in disjoint ranges are all read back. -/
theorem read_writeAll {pieces : List (ℕ × List α)} (s : Store α)
    (h : (pieces.map pieceRegion).Pairwise Region.Disjoint) :
    ∀ piece ∈ pieces, (s.writeAll pieces).read piece.1 piece.2.length = piece.2 := by
  induction pieces generalizing s with
  | nil => simp
  | cons piece pieces ih =>
    rw [List.map_cons, List.pairwise_cons] at h
    intro q hq
    rcases List.mem_cons.mp hq with rfl | hmem
    · have hkeep := agreeOn_writeAll (r := pieceRegion q) (s.write q.1 q.2)
        (fun p hp => Region.disjoint_comm.mp (h.1 _ (List.mem_map_of_mem hp)))
      calc (s.writeAll (q :: pieces)).read q.1 q.2.length
          = (s.write q.1 q.2).read q.1 q.2.length := hkeep.read le_rfl
        _ = q.2 := read_write_self s q.1 q.2
    · exact ih (s.write piece.1 piece.2) h.2 q hmem

end Store
end ByteRange
