import ProjectMu.FrameBuffer
import Mathlib

/-!
# Where a glyph is drawn

Drawing adds pixel stores and nothing else. A glyph of scale `s` is `12 * s` lines, each of
the same width and one line step behind the one before it.
-/

namespace ProjectMu

open ByteCodec ByteRange

/-- Drawing from one state to the other stores pixels in the set and moves the pointer on. -/
structure DrawsIn (d d' : Drawing) (area : Set ℕ) (advance : ℕ) : Prop where
  pixels : d'.pixels = d.pixels + advance
  stores : ∃ new, d'.trace.stores = d.trace.stores ++ new ∧
    ∀ s ∈ new, ∃ a ∈ area, ∃ byte, s = .pixel a byte
  memory : ∀ a ∉ area, d'.trace.memory a = d.trace.memory a

namespace DrawsIn

variable {d d' d'' : Drawing} {area area' : Set ℕ} {m n : ℕ}

theorem refl (d : Drawing) : DrawsIn d d ∅ 0 :=
  ⟨rfl, ⟨[], (List.append_nil _).symm, fun _ h => absurd h List.not_mem_nil⟩, fun _ _ => rfl⟩

theorem mono (h : DrawsIn d d' area m) (hsub : area ⊆ area') : DrawsIn d d' area' m := by
  obtain ⟨new, hnew, hin⟩ := h.stores
  refine ⟨h.pixels, ⟨new, hnew, ?_⟩, fun a ha => h.memory a fun hmem => ha (hsub hmem)⟩
  intro s hs
  obtain ⟨a, ha, byte, rfl⟩ := hin s hs
  exact ⟨a, hsub ha, byte, rfl⟩

theorem trans (h : DrawsIn d d' area m) (h' : DrawsIn d' d'' area' n) :
    DrawsIn d d'' (area ∪ area') (m + n) := by
  obtain ⟨new, hnew, hin⟩ := h.stores
  obtain ⟨new', hnew', hin'⟩ := h'.stores
  refine ⟨by rw [h'.pixels, h.pixels, Nat.add_assoc], ⟨new ++ new', ?_, ?_⟩, ?_⟩
  · rw [hnew', hnew, List.append_assoc]
  · intro s hs
    rcases List.mem_append.mp hs with hs | hs
    · obtain ⟨a, ha, byte, rfl⟩ := hin s hs
      exact ⟨a, Or.inl ha, byte, rfl⟩
    · obtain ⟨a, ha, byte, rfl⟩ := hin' s hs
      exact ⟨a, Or.inr ha, byte, rfl⟩
  · intro a ha
    rw [h'.memory a fun hmem => ha (Or.inr hmem), h.memory a fun hmem => ha (Or.inl hmem)]

theorem skip (h : DrawsIn d d' area m) (stride : ℕ) :
    DrawsIn d (d'.skip stride) area (m + stride) :=
  ⟨by rw [Drawing.skip, h.pixels, Nat.add_assoc], h.stores, h.memory⟩

end DrawsIn

theorem put_drawsIn (byte : Byte) (d : Drawing) :
    DrawsIn d (d.put byte) (Set.Ico d.pixels (d.pixels + 1)) 1 := by
  refine ⟨rfl, ⟨[.pixel d.pixels byte], rfl, ?_⟩, ?_⟩
  · intro s hs
    exact ⟨d.pixels, ⟨le_rfl, Nat.lt_succ_self _⟩, byte, List.mem_singleton.mp hs⟩
  · intro a ha
    apply Store.write_of_not_mem
    rw [Set.mem_Ico] at ha
    change a < d.pixels ∨ d.pixels + 1 ≤ a
    omega

/-- `k` lines of `width` bytes, one every `step` bytes. -/
def lines (start step width k : ℕ) : Set ℕ :=
  {a | ∃ i < k, start + i * step ≤ a ∧ a < start + i * step + width}

theorem lines_succ_subset (start step width k : ℕ) :
    lines start step width 1 ∪ lines (start + step) step width k ⊆
      lines start step width (k + 1) := by
  intro a ha
  rcases ha with ⟨i, hi, hlo, hhi⟩ | ⟨i, hi, hlo, hhi⟩
  · exact ⟨i, by omega, hlo, hhi⟩
  · refine ⟨i + 1, by omega, ?_, ?_⟩ <;> rw [Nat.add_mul] <;> omega

theorem lines_add_subset (start step width j k : ℕ) :
    lines start step width j ∪ lines (start + j * step) step width k ⊆
      lines start step width (j + k) := by
  intro a ha
  rcases ha with ⟨i, hi, hlo, hhi⟩ | ⟨i, hi, hlo, hhi⟩
  · exact ⟨i, by omega, hlo, hhi⟩
  · refine ⟨j + i, by omega, ?_, ?_⟩ <;> rw [Nat.add_mul] <;> omega

/-- Adjacent stretches make one. -/
theorem stretch_union_subset (start j k : ℕ) :
    Set.Ico start (start + j) ∪ Set.Ico (start + j) (start + j + k) ⊆
      Set.Ico start (start + (j + k)) := by
  intro a ha
  rcases ha with ha | ha <;> rw [Set.mem_Ico] at ha ⊢ <;> omega

/-- Repeating a step that draws a stretch draws the stretches behind one another. -/
theorem iterate_stretch {f : Drawing → Drawing} {width : ℕ}
    (h : ∀ d, DrawsIn d (f d) (Set.Ico d.pixels (d.pixels + width)) width) (n : ℕ) (d : Drawing) :
    DrawsIn d (f^[n] d) (Set.Ico d.pixels (d.pixels + n * width)) (n * width) := by
  induction n generalizing d with
  | zero =>
    rw [Nat.zero_mul]
    exact (DrawsIn.refl d).mono (Set.empty_subset _)
  | succ n ih =>
    have hrest := ih (f d)
    rw [(h d).pixels] at hrest
    rw [Function.iterate_succ_apply, Nat.succ_mul, Nat.add_comm (n * width)]
    exact ((h d).trans hrest).mono (stretch_union_subset _ _ _)

/-- Repeating a step that draws a line draws lines. -/
theorem iterate_lines {f : Drawing → Drawing} {step width : ℕ}
    (h : ∀ d, DrawsIn d (f d) (lines d.pixels step width 1) step) (n : ℕ) (d : Drawing) :
    DrawsIn d (f^[n] d) (lines d.pixels step width n) (n * step) := by
  induction n generalizing d with
  | zero =>
    rw [Nat.zero_mul]
    exact (DrawsIn.refl d).mono (Set.empty_subset _)
  | succ n ih =>
    have hrest := ih (f d)
    rw [(h d).pixels] at hrest
    rw [Function.iterate_succ_apply, Nat.succ_mul, Nat.add_comm (n * step)]
    exact ((h d).trans hrest).mono (lines_succ_subset _ _ _ _)

theorem drawBytes_drawsIn (color : BitVec 32) (n : ℕ) (d : Drawing) :
    DrawsIn d (drawBytes color n d) (Set.Ico d.pixels (d.pixels + n)) n := by
  induction n generalizing color d with
  | zero => exact (DrawsIn.refl d).mono (Set.empty_subset _)
  | succ n ih =>
    have hone := put_drawsIn (color.setWidth 8) d
    have hrest := ih (color >>> 8) (d.put (color.setWidth 8))
    rw [hone.pixels] at hrest
    rw [drawBytes, Nat.add_comm n 1]
    exact (hone.trans hrest).mono (stretch_union_subset _ _ _)

section Glyph

variable (g : FrameBufferPcds)

theorem drawPixel_drawsIn (pixelColor : BitVec 32) (fontScale : ℕ) (d : Drawing) :
    DrawsIn d (drawPixel g pixelColor fontScale d)
      (Set.Ico d.pixels (d.pixels + fontScale * g.bpp.toNat)) (fontScale * g.bpp.toNat) :=
  iterate_stretch (drawBytes_drawsIn pixelColor g.bpp.toNat) fontScale d

theorem drawColumns_drawsIn (fontScale n : ℕ) (data : BitVec 32) (d : Drawing) :
    DrawsIn d (drawColumns g fontScale n data d)
      (Set.Ico d.pixels (d.pixels + n * (fontScale * g.bpp.toNat)))
      (n * (fontScale * g.bpp.toNat)) := by
  induction n generalizing data d with
  | zero =>
    rw [Nat.zero_mul]
    exact (DrawsIn.refl d).mono (Set.empty_subset _)
  | succ n ih =>
    set pixelColor : BitVec 32 := if data &&& 1 ≠ 0 then 0xFFFFFFFF else 0x00000000 with hcolor
    have hone := drawPixel_drawsIn g pixelColor fontScale d
    have hrest := ih (data >>> 1) (drawPixel g pixelColor fontScale d)
    rw [hone.pixels] at hrest
    rw [drawColumns, Nat.succ_mul, Nat.add_comm (n * _)]
    exact (hone.trans hrest).mono (stretch_union_subset _ _ _)

/-- The bytes of one line of a glyph. -/
def lineWidth (fontScale : ℕ) : ℕ := fontWidth * (fontScale * g.bpp.toNat)

theorem drawRow_drawsIn (rowData : BitVec 32) (fontScale stride : ℕ) (d : Drawing) :
    DrawsIn d (drawRow g rowData fontScale stride d)
      (lines d.pixels (lineWidth g fontScale + stride) (lineWidth g fontScale) fontScale)
      (fontScale * (lineWidth g fontScale + stride)) := by
  apply iterate_lines
  intro d
  have hline := (drawColumns_drawsIn g fontScale fontWidth rowData d).skip stride
  apply hline.mono
  intro a ha
  rw [Set.mem_Ico] at ha
  refine ⟨0, Nat.zero_lt_one, ?_, ?_⟩ <;> rw [Nat.zero_mul, Nat.add_zero]
  · exact ha.1
  · exact ha.2

theorem drawRows_drawsIn (bottomGlyph : BitVec 32) (fontScale stride n : ℕ) (rowData : BitVec 32)
    (d : Drawing) :
    DrawsIn d (drawRows g bottomGlyph fontScale stride n rowData d)
      (lines d.pixels (lineWidth g fontScale + stride) (lineWidth g fontScale) (n * fontScale))
      (n * fontScale * (lineWidth g fontScale + stride)) := by
  induction n generalizing rowData d with
  | zero =>
    rw [Nat.zero_mul, Nat.zero_mul]
    exact (DrawsIn.refl d).mono (Set.empty_subset _)
  | succ n ih =>
    set row := if n + 1 = 6 then bottomGlyph else rowData with hrow
    have hone := drawRow_drawsIn g row fontScale stride d
    have hrest := ih (row >>> fontWidth) (drawRow g row fontScale stride d)
    rw [hone.pixels] at hrest
    have hboth := (hone.trans hrest).mono (lines_add_subset _ _ _ _ _)
    have hcount : (n + 1) * fontScale = fontScale + n * fontScale := by
      rw [Nat.succ_mul, Nat.add_comm]
    rw [drawRows, hcount, Nat.add_mul]
    exact hboth

/-- A glyph is drawn in twelve rows of `fontScale` lines. -/
theorem drawGlyph_drawsIn (glyph : BitVec 64) (fontScale : ℕ) (d : Drawing) :
    DrawsIn d (drawGlyph g glyph fontScale d)
      (lines d.pixels (lineWidth g fontScale + drawStride g fontScale) (lineWidth g fontScale)
        (12 * fontScale))
      (12 * fontScale * (lineWidth g fontScale + drawStride g fontScale)) :=
  drawRows_drawsIn g _ fontScale (drawStride g fontScale) 12 _ d

end Glyph

end ProjectMu
