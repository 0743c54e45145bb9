import ProjectMu.FrameBufferDraw

/-!
# The geometry of the console

The cursor record is read back as it was written. The scaled glyph cell fits the display
and no division is by zero. A cell whose column and row fit lies inside the frame, also
where the 32-bit products wrap, because that only makes them smaller.
-/

namespace ProjectMu

open ByteCodec ByteRange

/-- The displays of the statement: 12 to 109055 pixels on the shorter side, one to four
bytes a pixel. -/
structure FrameBufferPcds.Supported (g : FrameBufferPcds) : Prop where
  short : 12 ≤ min g.width.toNat g.height.toNat
  long : min g.width.toNat g.height.toNat < 109056
  bpp_pos : 1 ≤ g.bpp.toNat
  bpp_le : g.bpp.toNat ≤ 4

def FrameBufferPcds.frameSize (g : FrameBufferPcds) : ℕ :=
  g.width.toNat * g.height.toNat * g.bpp.toNat

section Cursor

variable (fbBase fbLength : ℕ) (t : FbTrace) (value : BitVec 32)

theorem ofNat_littleEndian_toLittleEndian (value : BitVec 32) :
    BitVec.ofNat 32 (littleEndian (toLittleEndian 4 value.toNat)) = value := by
  rw [littleEndian_toLittleEndian, Nat.mod_eq_of_lt (show value.toNat < 256 ^ 4 from value.isLt),
    BitVec.ofNat_toNat, BitVec.setWidth_eq]

theorem read_emit_position (address : ℕ) :
    (t.emit (.position address value)).memory.read address 4 = toLittleEndian 4 value.toNat := by
  have := Store.read_write_self t.memory address (toLittleEndian 4 value.toNat)
  rwa [length_toLittleEndian] at this

theorem read_emit_other {store : FbStore} {off n : ℕ}
    (h : off + n ≤ store.piece.1 ∨ store.piece.1 + store.piece.2.length ≤ off) :
    (t.emit store).memory.read off n = t.memory.read off n := by
  apply Store.read_congr
  intro a hlo hhi
  apply Store.write_of_not_mem
  omega

@[simp] theorem xPos_setXPos :
    (t.setXPos fbBase fbLength value).xPos fbBase fbLength = value := by
  rw [FbTrace.xPos, FbTrace.setXPos, read_emit_position, ofNat_littleEndian_toLittleEndian]

@[simp] theorem yPos_setYPos :
    (t.setYPos fbBase fbLength value).yPos fbBase fbLength = value := by
  rw [FbTrace.yPos, FbTrace.setYPos, read_emit_position, ofNat_littleEndian_toLittleEndian]

@[simp] theorem yPos_setXPos :
    (t.setXPos fbBase fbLength value).yPos fbBase fbLength = t.yPos fbBase fbLength := by
  rw [FbTrace.yPos, FbTrace.setXPos, read_emit_other]
  · rfl
  · right
    simp [FbStore.piece]

@[simp] theorem xPos_setYPos :
    (t.setYPos fbBase fbLength value).xPos fbBase fbLength = t.xPos fbBase fbLength := by
  rw [FbTrace.xPos, FbTrace.setYPos, read_emit_other]
  · rfl
  · left
    simp [FbStore.piece]

end Cursor

section Geometry

variable {g : FrameBufferPcds}

/-- The scaled glyph cell fits the display. -/
theorem getFontScale_fits (hg : g.Supported) :
    1 ≤ (getFontScale g).toNat ∧ 12 * (getFontScale g).toNat ≤ g.width.toNat ∧
      12 * (getFontScale g).toNat ≤ g.height.toNat := by
  have hshort := hg.short
  have hlong := hg.long
  set shorter := if g.width < g.height then g.width else g.height with hdef
  have hmin : shorter.toNat = min g.width.toNat g.height.toNat := by
    by_cases h : g.width < g.height
    · have hlt : g.width.toNat < g.height.toNat := h
      rw [hdef, if_pos h, Nat.min_eq_left hlt.le]
    · have hge : g.height.toNat ≤ g.width.toNat := BitVec.not_lt.mp h
      rw [hdef, if_neg h, Nat.min_eq_right hge]
  have hscale : (getFontScale g).toNat =
      if shorter.toNat < 426 then 1 else shorter.toNat / 426 := by
    unfold getFontScale
    rw [← hdef]
    by_cases h : shorter < 426
    · have hlt : shorter.toNat < 426 := h
      rw [if_pos hlt]
      dsimp only
      rw [if_pos h]
      rfl
    · have hge : ¬shorter.toNat < 426 := h
      rw [if_neg hge]
      have hdiv : (shorter / 426).toNat = shorter.toNat / 426 := BitVec.toNat_udiv
      dsimp only
      rw [if_neg h, BitVec.toNat_setWidth, hdiv, Nat.mod_eq_of_lt]
      omega
  rw [hscale]
  split_ifs <;> omega

theorem divide_toNat {a b : BitVec 32} (h : 0 < b.toNat) :
    ∃ q, divide a b = some q ∧ q.toNat = a.toNat / b.toNat := by
  have hne : b ≠ 0 := by
    intro hz
    rw [hz] at h
    exact absurd h (by decide)
  exact ⟨a / b, if_neg hne, BitVec.toNat_udiv⟩

theorem cell_toNat {k s : ℕ} (hk : k ≤ 12) (hs : s < 256) :
    (BitVec.ofNat 32 k * (BitVec.ofNat 8 s).setWidth 32).toNat = k * s := by
  have hle : k * s ≤ 12 * 255 := Nat.mul_le_mul hk (by omega)
  rw [BitVec.toNat_mul, BitVec.toNat_setWidth, BitVec.toNat_ofNat, BitVec.toNat_ofNat]
  change k % 2 ^ 32 * (s % 2 ^ 8 % 2 ^ 32) % 2 ^ 32 = k * s
  rw [Nat.mod_eq_of_lt (by omega : k < 2 ^ 32), Nat.mod_eq_of_lt (by omega : s < 2 ^ 8),
    Nat.mod_eq_of_lt (by omega : s < 2 ^ 32), Nat.mod_eq_of_lt (by omega)]

/-- No division by zero happens, and the positions are the columns and rows that fit. -/
theorem getFbPositions_eq (hg : g.Supported) :
    ∃ maxPosition, getFbPositions g (getFontScale g) = some maxPosition ∧
      maxPosition.xPos.toNat = g.width.toNat / (6 * (getFontScale g).toNat) ∧
      maxPosition.yPos.toNat = g.height.toNat / (12 * (getFontScale g).toNat) := by
  obtain ⟨hpos, -, -⟩ := getFontScale_fits hg
  have hscale : BitVec.ofNat 8 (getFontScale g).toNat = getFontScale g := by
    rw [BitVec.ofNat_toNat, BitVec.setWidth_eq]
  have hx := cell_toNat (by decide : fontWidth + 1 ≤ 12) (getFontScale g).isLt
  have hy := cell_toNat (by decide : fontHeight - 4 ≤ 12) (getFontScale g).isLt
  rw [hscale] at hx hy
  obtain ⟨x, hxdiv, hxval⟩ :=
    @divide_toNat g.width _ (by rw [hx]; exact Nat.mul_pos (by decide) hpos)
  obtain ⟨y, hydiv, hyval⟩ :=
    @divide_toNat g.height _ (by rw [hy]; exact Nat.mul_pos (by decide) hpos)
  refine ⟨⟨x, y⟩, ?_, ?_, ?_⟩
  · simp only [getFbPositions, hxdiv, hydiv, Option.bind_eq_bind, Option.bind_some]
  · rw [hxval, hx]
    rfl
  · rw [hyval, hy]
    rfl

/-- The last byte of line `i` of the cell at `(x, y)` is in the frame. -/
theorem cell_inside {W H B s x y i step row : ℕ} (hx : (x + 1) * (6 * s) ≤ W)
    (hy : (y + 1) * (12 * s) ≤ H) (hs : 1 ≤ s) (hi : i < 12 * s) (hstep : step ≤ W * B)
    (hrow : row ≤ W * B) :
    y * (12 * s) * row + x * (6 * s) * B + i * step + 5 * (s * B) ≤ W * H * B := by
  have hlines : y * (12 * s) + i + 1 ≤ H := by
    rw [Nat.add_mul] at hy
    omega
  have hcolumns : x * (6 * s) + 5 * s ≤ W := by
    rw [Nat.add_mul] at hx
    omega
  have h1 : y * (12 * s) * row ≤ y * (12 * s) * (W * B) := Nat.mul_le_mul_left _ hrow
  have h2 : i * step ≤ i * (W * B) := Nat.mul_le_mul_left _ hstep
  have h3 : (x * (6 * s) + 5 * s) * B ≤ W * B := Nat.mul_le_mul_right _ hcolumns
  have h4 : (y * (12 * s) + i + 1) * (W * B) ≤ H * (W * B) := Nat.mul_le_mul_right _ hlines
  calc y * (12 * s) * row + x * (6 * s) * B + i * step + 5 * (s * B)
      ≤ y * (12 * s) * (W * B) + x * (6 * s) * B + i * (W * B) + 5 * (s * B) := by omega
    _ = (y * (12 * s) + i) * (W * B) + (x * (6 * s) + 5 * s) * B := by ring
    _ ≤ (y * (12 * s) + i) * (W * B) + W * B := Nat.add_le_add_left h3 _
    _ = (y * (12 * s) + i + 1) * (W * B) := by ring
    _ ≤ H * (W * B) := h4
    _ = W * H * B := by ring

theorem zero_lt_of_gt {a b : BitVec 32} (h : a < b) : 0 < b := Nat.lt_of_le_of_lt (Nat.zero_le _) h

theorem toNat_mul_le (a b : BitVec 32) : (a * b).toNat ≤ a.toNat * b.toNat := by
  rw [BitVec.toNat_mul]
  exact Nat.mod_le _ _

theorem lineWidth_eq (s : ℕ) : lineWidth g s = 5 * s * g.bpp.toNat := by
  rw [lineWidth, fontWidth, Nat.mul_assoc]

/-- Only the product with the bytes of a pixel can wrap around in the stride. -/
theorem drawStride_eq {s : ℕ} (hs : 5 * s ≤ g.width.toNat) :
    drawStride g s = (g.width.toNat - 5 * s) * g.bpp.toNat % 2 ^ 32 := by
  have hlt : 5 * s < 2 ^ 32 := lt_of_le_of_lt hs g.width.isLt
  have hexact : (BitVec.ofNat 32 fontWidth * BitVec.ofNat 32 s).toNat = 5 * s := by
    rw [BitVec.toNat_mul, BitVec.toNat_ofNat, BitVec.toNat_ofNat]
    change 5 % 2 ^ 32 * (s % 2 ^ 32) % 2 ^ 32 = 5 * s
    rw [Nat.mod_eq_of_lt (by norm_num : 5 < 2 ^ 32), Nat.mod_eq_of_lt (by omega : s < 2 ^ 32),
      Nat.mod_eq_of_lt hlt]
  have hsub : (g.width - BitVec.ofNat 32 fontWidth * BitVec.ofNat 32 s).toNat =
      g.width.toNat - 5 * s := by
    rw [BitVec.toNat_sub_of_le (by rw [BitVec.le_def, hexact]; exact hs), hexact]
  rw [drawStride, BitVec.toNat_mul, hsub]

theorem line_of_display {s : ℕ} (hs : 5 * s ≤ g.width.toNat) :
    g.width.toNat * g.bpp.toNat =
      lineWidth g s + (g.width.toNat - 5 * s) * g.bpp.toNat := by
  rw [lineWidth_eq, ← Nat.add_mul, Nat.add_sub_cancel' hs]

/-- One line of a glyph and the stride behind it are at most one line of the display. -/
theorem line_step_le {s : ℕ} (hs : 5 * s ≤ g.width.toNat) :
    lineWidth g s + drawStride g s ≤ g.width.toNat * g.bpp.toNat := by
  rw [line_of_display hs, drawStride_eq hs]
  exact Nat.add_le_add_left (Nat.mod_le _ _) _

end Geometry

end ProjectMu
