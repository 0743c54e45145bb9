import ProjectMu.FrameBufferGeometry

/-!
# What a glyph looks like

The bytes that `drawGlyph` stores are those of its pixels, each in the color of the bit of the
glyph that its scaled position selects. A color has four bytes, so of a wider pixel the other
bytes are zero, and the step to the next line is computed in 32 bits.
-/

namespace ProjectMu

open ByteCodec ByteRange

/-- Drawing that fills a stretch from the pointer on. -/
structure PaintsStretch (d d' : Drawing) (width : ℕ) (content : ℕ → Byte) : Prop extends
    DrawsIn d d' (Set.Ico d.pixels (d.pixels + width)) width where
  painted : ∀ j < width, d'.trace.memory (d.pixels + j) = content j

/-- Drawing that fills lines of one width, one every `step` bytes. -/
structure PaintsLines (d d' : Drawing) (step width k : ℕ) (content : ℕ → ℕ → Byte) : Prop extends
    DrawsIn d d' (lines d.pixels step width k) (k * step) where
  painted : ∀ i < k, ∀ j < width, d'.trace.memory (d.pixels + i * step + j) = content i j

namespace PaintsStretch

variable {d d' d'' : Drawing} {m n width : ℕ} {content content' : ℕ → Byte}

theorem congr (h : PaintsStretch d d' width content) (heq : ∀ j < width, content j = content' j) :
    PaintsStretch d d' width content' :=
  { h with painted := fun j hj => (h.painted j hj).trans (heq j hj) }

theorem refl (d : Drawing) (content : ℕ → Byte) : PaintsStretch d d 0 content where
  toDrawsIn := (DrawsIn.refl d).mono (Set.empty_subset _)
  painted _ hj := absurd hj (Nat.not_lt_zero _)

theorem trans (h : PaintsStretch d d' m content) (h' : PaintsStretch d' d'' n content') :
    PaintsStretch d d'' (m + n) (fun j => if j < m then content j else content' (j - m)) := by
  have hmoved := h.pixels
  constructor
  · have hdraws := h'.toDrawsIn
    rw [hmoved] at hdraws
    exact (h.toDrawsIn.trans hdraws).mono (stretch_union_subset _ _ _)
  · intro j hj
    by_cases hfirst : j < m
    · have hout : d.pixels + j ∉ Set.Ico d'.pixels (d'.pixels + n) := by
        rw [Set.mem_Ico]
        omega
      rw [if_pos hfirst, h'.memory _ hout, h.painted j hfirst]
    · have hpainted := h'.painted (j - m) (by omega)
      rw [hmoved, Nat.add_assoc, Nat.add_sub_cancel' (Nat.not_lt.mp hfirst)] at hpainted
      rw [if_neg hfirst, hpainted]

/-- Repeating a step repeats its content. -/
theorem iterate {f : Drawing → Drawing} (h : ∀ d, PaintsStretch d (f d) width content) (n : ℕ)
    (d : Drawing) :
    PaintsStretch d (f^[n] d) (n * width) (fun j => content (j % width)) := by
  induction n generalizing d with
  | zero =>
    rw [Nat.zero_mul]
    exact refl d _
  | succ n ih =>
    rw [Function.iterate_succ_apply, Nat.succ_mul, Nat.add_comm (n * width)]
    refine ((h d).trans (ih (f d))).congr fun j _ => ?_
    by_cases hfirst : j < width
    · rw [if_pos hfirst, Nat.mod_eq_of_lt hfirst]
    · rw [if_neg hfirst, ← Nat.mod_eq_sub_mod (Nat.not_lt.mp hfirst)]

end PaintsStretch

namespace PaintsLines

variable {d d' d'' : Drawing} {step width k k' : ℕ} {content content' : ℕ → ℕ → Byte}

theorem congr (h : PaintsLines d d' step width k content)
    (heq : ∀ i < k, ∀ j < width, content i j = content' i j) :
    PaintsLines d d' step width k content' :=
  { h with painted := fun i hi j hj => (h.painted i hi j hj).trans (heq i hi j hj) }

theorem refl (d : Drawing) (step width : ℕ) (content : ℕ → ℕ → Byte) :
    PaintsLines d d step width 0 content where
  toDrawsIn := by
    rw [Nat.zero_mul]
    exact (DrawsIn.refl d).mono (Set.empty_subset _)
  painted _ hi := absurd hi (Nat.not_lt_zero _)

/-- Lines that are no wider than the step do not overlap. -/
theorem trans (h : PaintsLines d d' step width k content)
    (h' : PaintsLines d' d'' step width k' content') (hwidth : width ≤ step) :
    PaintsLines d d'' step width (k + k')
      (fun i => if i < k then content i else content' (i - k)) := by
  have hmoved := h.pixels
  constructor
  · have hdraws := h'.toDrawsIn
    rw [hmoved] at hdraws
    rw [Nat.add_mul]
    exact (h.toDrawsIn.trans hdraws).mono (lines_add_subset _ _ _ _ _)
  · intro i hi j hj
    by_cases hfirst : i < k
    · have hout : d.pixels + i * step + j ∉ lines d'.pixels step width k' := by
        rintro ⟨l, -, hlo, -⟩
        have hnext : (i + 1) * step ≤ k * step := Nat.mul_le_mul_right step hfirst
        rw [Nat.succ_mul] at hnext
        rw [hmoved] at hlo
        omega
      rw [if_pos hfirst, h'.memory _ hout, h.painted i hfirst j hj]
    · have hpainted := h'.painted (i - k) (by omega) j hj
      have hrow : d.pixels + k * step + (i - k) * step = d.pixels + i * step := by
        rw [Nat.add_assoc, ← Nat.add_mul, Nat.add_sub_cancel' (Nat.not_lt.mp hfirst)]
      rw [hmoved, hrow] at hpainted
      rw [if_neg hfirst, hpainted]

/-- Repeating a line. -/
theorem iterate {f : Drawing → Drawing} {line : ℕ → Byte} (hwidth : width ≤ step)
    (h : ∀ d, PaintsLines d (f d) step width 1 (fun _ => line)) (n : ℕ) (d : Drawing) :
    PaintsLines d (f^[n] d) step width n (fun _ => line) := by
  induction n generalizing d with
  | zero => exact refl d step width _
  | succ n ih =>
    rw [Function.iterate_succ_apply, Nat.add_comm n 1]
    refine ((h d).trans (ih (f d)) hwidth).congr fun i _ j _ => ?_
    split <;> rfl

end PaintsLines

/-- The bytes of a color, lowest first. -/
def colorByte (color : BitVec 32) (j : ℕ) : Byte := (color >>> (8 * j)).setWidth 8

def columnColor (data : BitVec 32) : BitVec 32 :=
  if data &&& 1 ≠ 0 then 0xFFFFFFFF else 0x00000000

theorem put_paints (byte : Byte) (d : Drawing) :
    PaintsStretch d (d.put byte) 1 (fun _ => byte) where
  toDrawsIn := put_drawsIn byte d
  painted j hj := by
    rw [Nat.lt_one_iff.mp hj, Nat.add_zero]
    simp [Drawing.put, FbTrace.emit, FbStore.piece, Store.write]

theorem drawBytes_paints (color : BitVec 32) (n : ℕ) (d : Drawing) :
    PaintsStretch d (drawBytes color n d) n (colorByte color) := by
  induction n generalizing color d with
  | zero => exact .refl d _
  | succ n ih =>
    rw [drawBytes, Nat.add_comm n 1]
    refine ((put_paints (color.setWidth 8) d).trans (ih (color >>> 8) _)).congr fun j _ => ?_
    cases j with
    | zero => rfl
    | succ j =>
      rw [if_neg (by omega), Nat.add_sub_cancel, colorByte, colorByte, ← BitVec.shiftRight_add,
        Nat.mul_succ, Nat.add_comm]

section Glyph

variable (g : FrameBufferPcds)

/-- The bytes of one line for the data of its row. -/
def lineByte (fontScale : ℕ) (data : BitVec 32) (j : ℕ) : Byte :=
  colorByte (columnColor (data >>> (j / (fontScale * g.bpp.toNat)))) (j % g.bpp.toNat)

theorem drawColumns_paints (fontScale n : ℕ) (data : BitVec 32) (d : Drawing) :
    PaintsStretch d (drawColumns g fontScale n data d) (n * (fontScale * g.bpp.toNat))
      (lineByte g fontScale data) := by
  induction n generalizing data d with
  | zero =>
    rw [Nat.zero_mul]
    exact .refl d _
  | succ n ih =>
    have hpixel := PaintsStretch.iterate (drawBytes_paints (columnColor data) g.bpp.toNat)
      fontScale d
    rw [drawColumns, Nat.succ_mul, Nat.add_comm (n * _)]
    refine (hpixel.trans (ih (data >>> 1) _)).congr fun j hj => ?_
    by_cases hfirst : j < fontScale * g.bpp.toNat
    · rw [if_pos hfirst, lineByte, Nat.div_eq_of_lt hfirst]
      rfl
    · have hle := Nat.not_lt.mp hfirst
      have hpos : 0 < fontScale * g.bpp.toNat := by
        by_contra hzero
        rw [Nat.eq_zero_of_not_pos hzero, Nat.mul_zero] at hj
        exact absurd hj (Nat.not_lt_zero _)
      have hdiv : j / (fontScale * g.bpp.toNat) =
          1 + (j - fontScale * g.bpp.toNat) / (fontScale * g.bpp.toNat) := by
        rw [Nat.div_eq_sub_div hpos hle, Nat.add_comm]
      have hmod : (j - fontScale * g.bpp.toNat) % g.bpp.toNat = j % g.bpp.toNat := by
        rw [Nat.mul_comm] at hle ⊢
        exact Nat.sub_mul_mod hle
      rw [if_neg hfirst, lineByte, lineByte, hdiv, BitVec.shiftRight_add, hmod]

/-- A line followed by the stride. -/
theorem drawLine_paints (fontScale stride : ℕ) (rowData : BitVec 32) (d : Drawing) :
    PaintsLines d ((drawColumns g fontScale fontWidth rowData d).skip stride)
      (lineWidth g fontScale + stride) (lineWidth g fontScale) 1
      (fun _ => lineByte g fontScale rowData) := by
  have hline := drawColumns_paints g fontScale fontWidth rowData d
  constructor
  · rw [Nat.one_mul]
    refine (hline.toDrawsIn.skip stride).mono fun a ha => ?_
    rw [Set.mem_Ico] at ha
    refine ⟨0, Nat.zero_lt_one, ?_, ?_⟩
    · rw [Nat.zero_mul]
      exact ha.1
    · rw [Nat.zero_mul]
      exact ha.2
  · intro i hi j hj
    rw [Nat.lt_one_iff.mp hi, Nat.zero_mul]
    exact hline.painted j hj

theorem drawRow_paints (rowData : BitVec 32) (fontScale stride : ℕ) (d : Drawing) :
    PaintsLines d (drawRow g rowData fontScale stride d) (lineWidth g fontScale + stride)
      (lineWidth g fontScale) fontScale (fun _ => lineByte g fontScale rowData) :=
  PaintsLines.iterate (Nat.le_add_right _ _) (drawLine_paints g fontScale stride rowData) fontScale
    d

/-- The data of a row, of the last `n` rows. -/
def rowAt (bottomGlyph : BitVec 32) : ℕ → BitVec 32 → ℕ → BitVec 32
  | 0, rowData, _ => rowData
  | n + 1, rowData, row =>
    let rowData := if n + 1 = 6 then bottomGlyph else rowData
    if row = 0 then rowData else rowAt bottomGlyph n (rowData >>> fontWidth) (row - 1)

theorem drawRows_paints (bottomGlyph : BitVec 32) {fontScale : ℕ} (hscale : 0 < fontScale)
    (stride n : ℕ) (rowData : BitVec 32) (d : Drawing) :
    PaintsLines d (drawRows g bottomGlyph fontScale stride n rowData d)
      (lineWidth g fontScale + stride) (lineWidth g fontScale) (n * fontScale)
      (fun i => lineByte g fontScale (rowAt bottomGlyph n rowData (i / fontScale))) := by
  induction n generalizing rowData d with
  | zero =>
    rw [Nat.zero_mul]
    exact .refl d _ _ _
  | succ n ih =>
    rw [drawRows, Nat.succ_mul, Nat.add_comm (n * fontScale)]
    refine ((drawRow_paints g _ fontScale stride d).trans (ih _ _) (Nat.le_add_right _ _)).congr
      fun i _ j _ => ?_
    by_cases hfirst : i < fontScale
    · rw [if_pos hfirst, Nat.div_eq_of_lt hfirst]
      rfl
    · have hdiv := Nat.div_eq_sub_div hscale (Nat.not_lt.mp hfirst)
      rw [if_neg hfirst, hdiv, rowAt, if_neg (Nat.succ_ne_zero _), Nat.add_sub_cancel]

theorem rowAt_of_lt (bottomGlyph rowData : BitVec 32) {n row : ℕ} (hn : n < 6) (hrow : row < n) :
    rowAt bottomGlyph n rowData row = rowData >>> (fontWidth * row) := by
  induction n generalizing rowData row with
  | zero => exact absurd hrow (Nat.not_lt_zero _)
  | succ n ih =>
    rw [rowAt, if_neg (show n + 1 ≠ 6 by omega)]
    cases row with
    | zero => rfl
    | succ row =>
      rw [if_neg (Nat.succ_ne_zero row), Nat.add_sub_cancel, ih _ (by omega) (by omega),
        ← BitVec.shiftRight_add, Nat.mul_succ, Nat.add_comm]

/-- The data is switched six rows before the end. -/
theorem rowAt_six_add (bottomGlyph rowData : BitVec 32) {n row : ℕ} (hrow : row < 6 + n) :
    rowAt bottomGlyph (6 + n) rowData row =
      if row < n then rowData >>> (fontWidth * row)
      else bottomGlyph >>> (fontWidth * (row - n)) := by
  induction n generalizing rowData row with
  | zero =>
    rw [rowAt, if_pos rfl, if_neg (Nat.not_lt_zero row), Nat.sub_zero]
    cases row with
    | zero => rfl
    | succ row =>
      rw [if_neg (Nat.succ_ne_zero row), Nat.add_sub_cancel, rowAt_of_lt _ _ (by omega) (by omega),
        ← BitVec.shiftRight_add, Nat.mul_succ, Nat.add_comm]
  | succ n ih =>
    rw [← Nat.add_assoc, rowAt, if_neg (show 6 + n + 1 ≠ 6 by omega)]
    cases row with
    | zero => rfl
    | succ row =>
      have hshift : rowData >>> fontWidth >>> (fontWidth * row) =
          rowData >>> (fontWidth * (row + 1)) := by
        rw [← BitVec.shiftRight_add, Nat.mul_succ, Nat.add_comm]
      rw [if_neg (Nat.succ_ne_zero row), Nat.add_sub_cancel, ih _ (by omega), hshift,
        Nat.add_sub_add_right]
      simp only [Nat.add_lt_add_iff_right]

/-- The half of the glyph with the row of a line, and the rows in front of it in that half. -/
def glyphHalf (glyph : BitVec 64) (row : ℕ) : BitVec 32 :=
  if row < 6 then (glyph >>> 32).setWidth 32 else glyph.setWidth 32

theorem rowAt_glyph (glyph : BitVec 64) {row : ℕ} (hrow : row < 12) :
    rowAt (glyph.setWidth 32) 12 ((glyph >>> 32).setWidth 32) row =
      glyphHalf glyph row >>> (fontWidth * (row % 6)) := by
  have hsix := rowAt_six_add (glyph.setWidth 32) ((glyph >>> 32).setWidth 32)
    (show row < 6 + 6 from hrow)
  refine hsix.trans ?_
  rw [glyphHalf]
  by_cases htop : row < 6
  · rw [if_pos htop, if_pos htop, Nat.mod_eq_of_lt htop]
  · rw [if_neg htop, if_neg htop, Nat.mod_eq_sub_mod (Nat.not_lt.mp htop),
      Nat.mod_eq_of_lt (by omega : row - 6 < 6)]

/-- The bit of the glyph that shows at a place of the scaled cell. -/
def glyphBit (glyph : BitVec 64) (fontScale x y : ℕ) : Bool :=
  (glyphHalf glyph (y / fontScale)).getLsbD (fontWidth * (y / fontScale % 6) + x / fontScale)

theorem columnColor_eq (data : BitVec 32) :
    columnColor data = if data.getLsbD 0 then 0xFFFFFFFF else 0x00000000 := by
  have hbit : data &&& 1 ≠ 0 ↔ data.getLsbD 0 = true := by
    have hone : data &&& 1 = (BitVec.ofBool (data.getLsbD 0)).setWidth 32 :=
      BitVec.and_one_eq_setWidth_ofBool_getLsbD
    rw [hone]
    cases data.getLsbD 0 <;> decide
  rw [columnColor]
  exact if_congr hbit rfl rfl

/-- A color has four bytes. -/
theorem colorByte_eq (bit : Bool) (j : ℕ) :
    colorByte (if bit then 0xFFFFFFFF else 0x00000000) j =
      if bit ∧ j < 4 then 0xFF else 0x00 := by
  rw [colorByte]
  cases bit with
  | false => simp
  | true =>
    by_cases hj : j < 4
    · interval_cases j <;> rfl
    · have hzero : (0xFFFFFFFF : BitVec 32) >>> (8 * j) = 0 :=
        BitVec.ushiftRight_eq_zero (by omega)
      rw [if_pos rfl, hzero, if_neg (fun h => hj h.2)]
      rfl

/-- The address of a pixel of the frame. -/
def pixelAddress (fbBase x y : ℕ) : ℕ := fbBase + (y * g.width.toNat + x) * g.bpp.toNat

/-- The bytes of the pixels of a scaled cell. -/
def glyphArea (fontScale fbBase column row : ℕ) : Set ℕ :=
  {a | ∃ x < fontWidth * fontScale, ∃ y < 12 * fontScale, ∃ j < g.bpp.toNat,
    a = pixelAddress g fbBase (column + x) (row + y) + j}

/-- The pixels of the cell show the glyph, `color` giving the bytes for a bit, and nothing else is
written. -/
structure DrawsGlyph (glyph : BitVec 64) (fontScale fbBase column row : ℕ)
    (color : Bool → ℕ → Byte) (d d' : Drawing) : Prop where
  shows : ∀ x < fontWidth * fontScale, ∀ y < 12 * fontScale, ∀ j < g.bpp.toNat,
    d'.trace.memory (pixelAddress g fbBase (column + x) (row + y) + j) =
      color (glyphBit glyph fontScale x y) j
  stores : ∃ new, d'.trace.stores = d.trace.stores ++ new ∧
    ∀ s ∈ new, ∃ a ∈ glyphArea g fontScale fbBase column row, ∃ byte, s = .pixel a byte
  frame : ∀ a ∉ glyphArea g fontScale fbBase column row, d'.trace.memory a = d.trace.memory a

variable {g}

/-- The step from line to line is the one of the frame where the stride does not wrap around. -/
theorem lineStep_eq {fontScale : ℕ} (hwidth : fontWidth * fontScale ≤ g.width.toNat)
    (hstride : (g.width.toNat - fontWidth * fontScale) * g.bpp.toNat < 2 ^ 32) :
    lineWidth g fontScale + drawStride g fontScale = g.width.toNat * g.bpp.toNat := by
  rw [fontWidth] at hwidth hstride
  rw [line_of_display hwidth, drawStride_eq hwidth, Nat.mod_eq_of_lt hstride]

theorem pixelAddress_add (fbBase column row x y : ℕ) :
    pixelAddress g fbBase (column + x) (row + y) =
      pixelAddress g fbBase column row + y * (g.width.toNat * g.bpp.toNat) +
        x * g.bpp.toNat := by
  unfold pixelAddress
  ring

/-- The lines of the cell are those of its pixels. -/
theorem lines_subset_glyphArea (fontScale fbBase column row : ℕ) :
    lines (pixelAddress g fbBase column row) (g.width.toNat * g.bpp.toNat)
      (lineWidth g fontScale) (12 * fontScale) ⊆ glyphArea g fontScale fbBase column row := by
  rintro a ⟨y, hy, hlo, hhi⟩
  obtain ⟨o, rfl⟩ := Nat.exists_eq_add_of_le hlo
  have hline : o < fontWidth * fontScale * g.bpp.toNat := by
    have hwidth := Nat.add_lt_add_iff_left.mp hhi
    rwa [lineWidth, ← Nat.mul_assoc] at hwidth
  have hbpp : 0 < g.bpp.toNat := by
    by_contra hzero
    rw [Nat.eq_zero_of_not_pos hzero, Nat.mul_zero] at hline
    exact absurd hline (Nat.not_lt_zero _)
  refine ⟨o / g.bpp.toNat, Nat.div_lt_of_lt_mul (by rwa [Nat.mul_comm]), y, hy,
    o % g.bpp.toNat, Nat.mod_lt _ hbpp, ?_⟩
  rw [pixelAddress_add, Nat.add_assoc _ (o / g.bpp.toNat * g.bpp.toNat), Nat.div_add_mod']

/-- The byte of a pixel in its line. -/
theorem lineByte_pixel (glyph : BitVec 64) (fontScale x y : ℕ) {j : ℕ} (hj : j < g.bpp.toNat) :
    lineByte g fontScale
        (glyphHalf glyph (y / fontScale) >>> (fontWidth * (y / fontScale % 6)))
        (x * g.bpp.toNat + j) =
      if glyphBit glyph fontScale x y ∧ j < 4 then 0xFF else 0x00 := by
  have hcolumn : (x * g.bpp.toNat + j) / (fontScale * g.bpp.toNat) = x / fontScale := by
    rw [Nat.mul_comm fontScale, ← Nat.div_div_eq_div_mul, Nat.add_comm,
      Nat.add_mul_div_right _ _ (Nat.zero_lt_of_lt hj), Nat.div_eq_of_lt hj, Nat.zero_add]
  have hbyte : (x * g.bpp.toNat + j) % g.bpp.toNat = j := by
    rw [Nat.add_comm, Nat.add_mul_mod_self_right, Nat.mod_eq_of_lt hj]
  rw [lineByte, hcolumn, hbyte, columnColor_eq, ← BitVec.shiftRight_add, colorByte_eq,
    BitVec.getLsbD_ushiftRight, Nat.add_zero, glyphBit]

/-- A glyph in a cell of the frame, in white where its bits are set and in black elsewhere. -/
theorem drawGlyph_drawsGlyph (glyph : BitVec 64) {fontScale : ℕ}
    (hscale : 1 ≤ fontScale ∧ fontScale ≤ 255) {column : ℕ}
    (hcolumn : column + fontWidth * fontScale ≤ g.width.toNat)
    (hstride : (g.width.toNat - fontWidth * fontScale) * g.bpp.toNat < 2 ^ 32)
    (fbBase row : ℕ) {d : Drawing} (hd : d.pixels = pixelAddress g fbBase column row) :
    DrawsGlyph g glyph fontScale fbBase column row
      (fun bit j => if bit ∧ j < 4 then 0xFF else 0x00) d (drawGlyph g glyph fontScale d) := by
  have hstep := lineStep_eq (by omega) hstride
  have hlines := drawRows_paints g (glyph.setWidth 32) hscale.1 (drawStride g fontScale) 12
    ((glyph >>> 32).setWidth 32) d
  rw [hstep] at hlines
  have hdraws : DrawsIn d (drawGlyph g glyph fontScale d) (lines (pixelAddress g fbBase column row)
      (g.width.toNat * g.bpp.toNat) (lineWidth g fontScale) (12 * fontScale)) _ :=
    hd ▸ hlines.toDrawsIn
  have harea := hdraws.mono (lines_subset_glyphArea fontScale fbBase column row)
  refine ⟨?_, harea.stores, harea.memory⟩
  intro x hx y hy j hj
  have hinside : x * g.bpp.toNat + j < lineWidth g fontScale := by
    rw [lineWidth, ← Nat.mul_assoc]
    calc x * g.bpp.toNat + j < (x + 1) * g.bpp.toNat := by rw [Nat.succ_mul]; omega
      _ ≤ fontWidth * fontScale * g.bpp.toNat := Nat.mul_le_mul_right _ hx
  have hpainted := hlines.painted y hy (x * g.bpp.toNat + j) hinside
  have hrow : y / fontScale < 12 := Nat.div_lt_of_lt_mul (by rwa [Nat.mul_comm])
  rw [rowAt_glyph glyph hrow, lineByte_pixel glyph fontScale x y hj, hd, ← Nat.add_assoc,
    ← pixelAddress_add] at hpainted
  exact hpainted

end Glyph

/-- The letter A with two by two pixels a bit, on a display of 32 bits a pixel. -/
theorem drawGlyph_drawsGlyph_phone :
    DrawsGlyph ⟨1080, 2400, 32⟩ 0x2318A8800008C63F 2 0 3 4
      (fun bit j => if bit ∧ j < 4 then 0xFF else 0x00) ⟨⟨fun _ => 0, []⟩, (4 * 1080 + 3) * 4⟩
      (drawGlyph ⟨1080, 2400, 32⟩ 0x2318A8800008C63F 2
        ⟨⟨fun _ => 0, []⟩, (4 * 1080 + 3) * 4⟩) :=
  drawGlyph_drawsGlyph 0x2318A8800008C63F (by decide) (by decide) (by decide) 0 4 rfl

/-- The fifth byte of a pixel is not white, and a line of 4 GiB has no stride. -/
theorem drawGlyph_not_drawsGlyph :
    ¬DrawsGlyph ⟨5, 12, 40⟩ 0x100000000 1 0 0 0 (fun bit _ => if bit then 0xFF else 0x00)
      ⟨⟨fun _ => 0, []⟩, 0⟩ (drawGlyph ⟨5, 12, 40⟩ 0x100000000 1 ⟨⟨fun _ => 0, []⟩, 0⟩) ∧
    ¬DrawsGlyph ⟨0x80000005, 12, 16⟩ 0 1 0 0 0 (fun bit _ => if bit then 0xFF else 0x00)
      ⟨⟨fun _ => 0x55, []⟩, 0⟩
      (drawGlyph ⟨0x80000005, 12, 16⟩ 0 1 ⟨⟨fun _ => 0x55, []⟩, 0⟩) := by
  constructor
  · intro h
    have hbyte := h.shows 0 (by decide) 0 (by decide) 4 (by decide)
    revert hbyte
    decide +kernel
  · intro h
    have hbyte := h.shows 0 (by decide) 1 (by decide) 0 (by decide)
    revert hbyte
    decide +kernel

end ProjectMu
