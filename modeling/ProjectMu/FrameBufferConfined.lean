import ProjectMu.FrameBufferGeometry

/-!
# The console stays inside the frame

The cursor is kept below the number of columns and rows that fit the display, so every
glyph is drawn inside the frame, and nothing that is drawn or cleared reaches the cursor
record behind it.
-/

namespace ProjectMu

open ByteCodec ByteRange

/-- Pixels and clears lie in the frame, cursor stores in the record behind it. -/
def FbStore.Confined (g : FrameBufferPcds) (fbBase fbLength : ℕ) : FbStore → Prop
  | .pixel address _ => fbBase ≤ address ∧ address < fbBase + g.frameSize
  | .clear address size => fbBase ≤ address ∧ address + size ≤ fbBase + g.frameSize
  | .position address _ => fbBase + fbLength - 8 ≤ address ∧ address + 4 ≤ fbBase + fbLength

section Run

variable {g : FrameBufferPcds} {fbBase fbLength : ℕ} {maxPosition : FbPosition}

/-- The stores so far are confined and the cursor is on the display. -/
structure Settled (g : FrameBufferPcds) (fbBase fbLength : ℕ) (maxPosition : FbPosition)
    (t : FbTrace) : Prop where
  confined : ∀ store ∈ t.stores, store.Confined g fbBase fbLength
  xPos_lt : t.xPos fbBase fbLength < maxPosition.xPos
  yPos_lt : t.yPos fbBase fbLength < maxPosition.yPos

theorem confined_emit {t : FbTrace} {store : FbStore}
    (h : ∀ s ∈ t.stores, s.Confined g fbBase fbLength) (hs : store.Confined g fbBase fbLength) :
    ∀ s ∈ (t.emit store).stores, s.Confined g fbBase fbLength := by
  intro s hmem
  rcases List.mem_append.mp hmem with hmem | hmem
  · exact h s hmem
  · rw [List.mem_singleton.mp hmem]
    exact hs

theorem confined_setXPos {t : FbTrace} (hlen : 8 ≤ fbLength) (value : BitVec 32)
    (h : ∀ s ∈ t.stores, s.Confined g fbBase fbLength) :
    ∀ s ∈ (t.setXPos fbBase fbLength value).stores, s.Confined g fbBase fbLength :=
  confined_emit h ⟨le_rfl, by unfold currentPosition; omega⟩

theorem confined_setYPos {t : FbTrace} (hlen : 8 ≤ fbLength) (value : BitVec 32)
    (h : ∀ s ∈ t.stores, s.Confined g fbBase fbLength) :
    ∀ s ∈ (t.setYPos fbBase fbLength value).stores, s.Confined g fbBase fbLength :=
  confined_emit h ⟨Nat.le_add_right _ _, by unfold currentPosition; omega⟩

/-- A new line, from a cursor in any column of the display. -/
theorem advanceNewLine_settled (hlen : g.frameSize + 8 ≤ fbLength)
    (hx : 0 < maxPosition.xPos) {t : FbTrace}
    (hconfined : ∀ s ∈ t.stores, s.Confined g fbBase fbLength)
    (hy : t.yPos fbBase fbLength < maxPosition.yPos) :
    Settled g fbBase fbLength maxPosition (advanceNewLine g fbBase fbLength maxPosition t) := by
  have hlen' : 8 ≤ fbLength := by omega
  have hsize : (g.width * g.height * g.bpp).toNat ≤ g.frameSize :=
    (toNat_mul_le _ _).trans (Nat.mul_le_mul_right _ (toNat_mul_le _ _))
  have hfirst := confined_setYPos hlen' (t.yPos fbBase fbLength + 1)
    (confined_setXPos hlen' 0 hconfined)
  unfold advanceNewLine
  simp only [yPos_setXPos, yPos_setYPos]
  by_cases hwrap : maxPosition.yPos ≤ t.yPos fbBase fbLength + 1
  · rw [if_pos hwrap]
    have hclear : (FbStore.clear fbBase (g.width * g.height * g.bpp).toNat).Confined g fbBase
        fbLength := ⟨le_rfl, by omega⟩
    refine ⟨confined_setYPos hlen' 0 (confined_setXPos hlen' 0 (confined_emit hfirst hclear)),
      ?_, ?_⟩
    · rw [xPos_setYPos, xPos_setXPos]
      exact hx
    · rw [yPos_setYPos]
      exact zero_lt_of_gt hy
  · rw [if_neg hwrap]
    refine ⟨hfirst, ?_, ?_⟩
    · rw [xPos_setYPos, xPos_setXPos]
      exact hx
    · rw [yPos_setYPos]
      exact BitVec.not_le.mp hwrap

/-- A drawing inside the frame keeps the record and the confinement. -/
theorem settled_of_drawsIn (hlen : g.frameSize + 8 ≤ fbLength) {d d' : Drawing} {area : Set ℕ}
    {advance : ℕ} (h : DrawsIn d d' area advance)
    (harea : area ⊆ Set.Ico fbBase (fbBase + g.frameSize))
    (hd : Settled g fbBase fbLength maxPosition d.trace) :
    Settled g fbBase fbLength maxPosition d'.trace := by
  have hread {off : ℕ} (hoff : fbBase + g.frameSize ≤ off) :
      d'.trace.memory.read off 4 = d.trace.memory.read off 4 := by
    apply Store.read_congr
    intro a hlo hhi
    apply h.memory
    intro hmem
    have := (harea hmem).2
    omega
  refine ⟨?_, ?_, ?_⟩
  · obtain ⟨new, hnew, hin⟩ := h.stores
    intro s hs
    rw [hnew] at hs
    rcases List.mem_append.mp hs with hs | hs
    · exact hd.confined s hs
    · obtain ⟨a, ha, byte, rfl⟩ := hin s hs
      exact harea ha
  · rw [FbTrace.xPos, hread (by unfold currentPosition; omega)]
    exact hd.xPos_lt
  · rw [FbTrace.yPos, hread (by unfold currentPosition; omega)]
    exact hd.yPos_lt

/-- The glyph at a cursor on the display is drawn inside the frame. -/
theorem glyph_area (hg : g.Supported)
    (hxmax : maxPosition.xPos.toNat = g.width.toNat / (6 * (getFontScale g).toNat))
    (hymax : maxPosition.yPos.toNat = g.height.toNat / (12 * (getFontScale g).toNat))
    {t : FbTrace} (ht : Settled g fbBase fbLength maxPosition t) :
    lines (glyphPixels g fbBase fbLength (getFontScale g).toNat t)
        (lineWidth g (getFontScale g).toNat + drawStride g (getFontScale g).toNat)
        (lineWidth g (getFontScale g).toNat) (12 * (getFontScale g).toNat) ⊆
      Set.Ico fbBase (fbBase + g.frameSize) := by
  obtain ⟨hpos, hwidth, hheight⟩ := getFontScale_fits hg
  set s := (getFontScale g).toNat with hs
  have hx : (t.xPos fbBase fbLength).toNat + 1 ≤ maxPosition.xPos.toNat := ht.xPos_lt
  have hy : (t.yPos fbBase fbLength).toNat + 1 ≤ maxPosition.yPos.toNat := ht.yPos_lt
  rw [hxmax, Nat.le_div_iff_mul_le (by omega)] at hx
  rw [hymax, Nat.le_div_iff_mul_le (by omega)] at hy
  intro a ha
  obtain ⟨i, hi, hlo, hhi⟩ := ha
  have hinside := cell_inside hx hy hpos hi (@line_step_le g s (by omega))
    (toNat_mul_le g.width g.bpp)
  have hpixels : glyphPixels g fbBase fbLength s t =
      fbBase + (t.yPos fbBase fbLength).toNat * (12 * s) * (g.width * g.bpp).toNat +
        (t.xPos fbBase fbLength).toNat * (6 * s) * g.bpp.toNat := rfl
  have hline : lineWidth g s = 5 * (s * g.bpp.toNat) := rfl
  rw [hpixels] at hlo hhi
  rw [Set.mem_Ico, FrameBufferPcds.frameSize]
  omega

theorem drawCharacter_settled (hg : g.Supported) (hlen : g.frameSize + 8 ≤ fbLength)
    (hxmax : maxPosition.xPos.toNat = g.width.toNat / (6 * (getFontScale g).toNat))
    (hymax : maxPosition.yPos.toNat = g.height.toNat / (12 * (getFontScale g).toNat))
    {t : FbTrace} (ht : Settled g fbBase fbLength maxPosition t) (character : Byte) :
    Settled g fbBase fbLength maxPosition
      (drawCharacter g fbBase fbLength maxPosition (getFontScale g).toNat character t) := by
  have hlen' : 8 ≤ fbLength := by omega
  unfold drawCharacter
  dsimp only
  set drawn := (drawGlyph g (glyphFont.getD (character.toNat - 32) 0) (getFontScale g).toNat
    ⟨t, glyphPixels g fbBase fbLength (getFontScale g).toNat t⟩).trace with hdrawn
  have hsettled : Settled g fbBase fbLength maxPosition drawn :=
    settled_of_drawsIn hlen (drawGlyph_drawsIn g _ _ _) (glyph_area hg hxmax hymax ht) ht
  have hconfined := confined_setXPos hlen' (drawn.xPos fbBase fbLength + 1) hsettled.confined
  rw [xPos_setXPos]
  by_cases hend : maxPosition.xPos ≤ drawn.xPos fbBase fbLength + 1
  · rw [if_pos hend]
    apply advanceNewLine_settled hlen (zero_lt_of_gt hsettled.xPos_lt) hconfined
    rw [yPos_setXPos]
    exact hsettled.yPos_lt
  · rw [if_neg hend]
    refine ⟨hconfined, ?_, ?_⟩
    · rw [xPos_setXPos]
      exact BitVec.not_le.mp hend
    · rw [yPos_setXPos]
      exact hsettled.yPos_lt

/-- One character. -/
theorem writeFrameBuffer_settled (hg : g.Supported) (hlen : g.frameSize + 8 ≤ fbLength)
    (hmax : getFbPositions g (getFontScale g) = some maxPosition)
    (hxmax : maxPosition.xPos.toNat = g.width.toNat / (6 * (getFontScale g).toNat))
    (hymax : maxPosition.yPos.toNat = g.height.toNat / (12 * (getFontScale g).toNat))
    {t : FbTrace} (ht : Settled g fbBase fbLength maxPosition t) (character : Byte) :
    ∃ t', writeFrameBuffer g fbBase fbLength t character = some t' ∧
      Settled g fbBase fbLength maxPosition t' := by
  have hx : 0 < maxPosition.xPos := zero_lt_of_gt ht.xPos_lt
  unfold writeFrameBuffer
  dsimp only
  rw [hmax]
  refine ⟨_, rfl, ?_⟩
  split_ifs
  · exact ht
  · exact advanceNewLine_settled hlen hx ht.confined ht.yPos_lt
  · refine ⟨confined_setXPos (by omega) 0 ht.confined, ?_, ?_⟩
    · rw [xPos_setXPos]
      exact hx
    · rw [yPos_setXPos]
      exact ht.yPos_lt
  · exact ht
  · exact ht
  · exact drawCharacter_settled hg hlen hxmax hymax ht character

/-- Any characters, from a zeroed cursor: no division by zero, all stores confined and the
cursor on the display, after the last character and so after each one. -/
theorem writeFrameBufferAll_confined (hg : g.Supported) (hlen : g.frameSize + 8 ≤ fbLength)
    {memory : Store Byte}
    (hzero : memory.read (fbBase + fbLength - 8) 8 = List.replicate 8 0) (characters : List Byte) :
    ∃ maxPosition t, getFbPositions g (getFontScale g) = some maxPosition ∧
      writeFrameBufferAll g fbBase fbLength ⟨memory, []⟩ characters = some t ∧
      (∀ store ∈ t.stores, store.Confined g fbBase fbLength) ∧
      t.xPos fbBase fbLength < maxPosition.xPos ∧ t.yPos fbBase fbLength < maxPosition.yPos := by
  obtain ⟨maxPosition, hmax, hxmax, hymax⟩ := getFbPositions_eq hg
  obtain ⟨hpos, hwidth, hheight⟩ := getFontScale_fits hg
  have hx : 0 < maxPosition.xPos.toNat := by
    rw [hxmax]
    exact Nat.div_pos (by omega) (by omega)
  have hy : 0 < maxPosition.yPos.toNat := by
    rw [hymax]
    exact Nat.div_pos hheight (by omega)
  have hrecord (k : ℕ) (hk : k + 4 ≤ 8) :
      littleEndian (memory.read (currentPosition fbBase fbLength + k) 4) = 0 := by
    have hslice := Store.slice_read memory (fbBase + fbLength - 8) 8 k 4 hk
    rw [hzero] at hslice
    rw [currentPosition, ← hslice, slice, List.drop_replicate, List.take_replicate,
      Nat.min_eq_left (by omega)]
    rfl
  have hstart : Settled g fbBase fbLength maxPosition ⟨memory, []⟩ := by
    refine ⟨fun s hs => absurd hs List.not_mem_nil, ?_, ?_⟩
    · have h0 := hrecord 0 (by decide)
      rw [Nat.add_zero] at h0
      rw [FbTrace.xPos, h0]
      exact hx
    · rw [FbTrace.yPos, hrecord 4 le_rfl]
      exact hy
  have hrun (t : FbTrace) (ht : Settled g fbBase fbLength maxPosition t) :
      ∃ t', writeFrameBufferAll g fbBase fbLength t characters = some t' ∧
        Settled g fbBase fbLength maxPosition t' := by
    induction characters generalizing t with
    | nil => exact ⟨t, rfl, ht⟩
    | cons c characters ih =>
      obtain ⟨t', hone, ht'⟩ := writeFrameBuffer_settled hg hlen hmax hxmax hymax ht c
      obtain ⟨t'', hrest, ht''⟩ := ih t' ht'
      refine ⟨t'', ?_, ht''⟩
      rw [writeFrameBufferAll, List.foldlM_cons, hone]
      exact hrest
  obtain ⟨t, ht, hsettled⟩ := hrun _ hstart
  exact ⟨maxPosition, t, hmax, ht, hsettled.confined, hsettled.xPos_lt, hsettled.yPos_lt⟩

end Run

/-- A display of 1080 by 2400 pixels of four bytes. -/
theorem writeFrameBufferAll_confined_phone :
    ∃ maxPosition t, getFbPositions ⟨1080, 2400, 32⟩ (getFontScale ⟨1080, 2400, 32⟩) =
        some maxPosition ∧
      writeFrameBufferAll ⟨1080, 2400, 32⟩ 0x9C000000 0x2400000 ⟨fun _ => 0, []⟩ [0x4D, 0x75] =
        some t ∧
      (∀ store ∈ t.stores, store.Confined ⟨1080, 2400, 32⟩ 0x9C000000 0x2400000) ∧
      t.xPos 0x9C000000 0x2400000 < maxPosition.xPos ∧
      t.yPos 0x9C000000 0x2400000 < maxPosition.yPos :=
  writeFrameBufferAll_confined ⟨by decide, by decide, by decide, by decide⟩ (by decide) rfl _

end ProjectMu
