import ProjectMu.ByteCodec

/-!
# The frame buffer console

`writeFrameBuffer` draws one character at the cursor. The cursor is a record in the last
eight bytes of the region, read back from memory each time. All sizes are products of
32-bit constants of the display and may wrap; every store is recorded in order.
-/

namespace ProjectMu

open ByteCodec ByteRange

def fontWidth : ℕ := 5
def fontHeight : ℕ := 16

/-- The glyphs of the characters from the space on, five columns by twelve rows. -/
def glyphFont : List (BitVec 64) := [
  0x0000000000000000, 0x0842108000020084, 0x0005294000000000, 0x15F528000000295F,
  0x1C52F88000023E94, 0x088556400004D542, 0x04528800000B2725, 0x0002108000000000,
  0x0421108800821042, 0x1084108200221108, 0x0957548000000000, 0x3E42000000000084,
  0x0000000000223000, 0x3E00000000000000, 0x0000000000471000, 0x0884420000008442,
  0x2318A88000022A31, 0x08429880000F9084, 0x1108C5C0000F8444, 0x1C4443E000074610,
  0x14A62100000423E9, 0x26D087E000074610, 0x1E10C5C000074631, 0x088443E000010844,
  0x1D18C5C000074631, 0x3D18C5C000074610, 0x08E2000000471000, 0x08E2000000223000,
  0x0222220000082082, 0x01F00000000003E0, 0x2082082000008888, 0x1108C5C000020084,
  0x2B98C5C0000F05B5, 0x2318A8800008C63F, 0x1D2949E00007CA52, 0x0210C5C000074421,
  0x252949E00007CA52, 0x1E1087E0000F8421, 0x1E1087E000008421, 0x0210C5C000074639,
  0x3F18C6200008C631, 0x084211C000071084, 0x1084238000032508, 0x0654C6200008C525,
  0x02108420000F8421, 0x2B5DC6200008C631, 0x2B59CE200008C739, 0x2318C5C000074631,
  0x1F18C5E000008421, 0x2318C5C001075631, 0x1F18C5E00008C525, 0x1C10C5C000074610,
  0x084213E000021084, 0x2318C62000074631, 0x1518C6200002114A, 0x2B18C620000556B5,
  0x08A546200008C54A, 0x08A5462000021084, 0x088443E0000F8442, 0x0421084E00E10842,
  0x0821042000084108, 0x1084210E00E42108, 0x0008A88000000000, 0x0000000001F00000,
  0x0000010400000000, 0x20E00000000B663E, 0x22F084200007C631, 0x22E0000000074421,
  0x23E84200000F4631, 0x22E000000007443F, 0x1E21498000010842, 0x22E000001D187A31,
  0x26D084200008C631, 0x0860100000071084, 0x10C020000C94A108, 0x0A9084200008A4A3,
  0x084210C000071084, 0x2AB000000008D6B5, 0x26D000000008C631, 0x22E0000000074631,
  0x22F000000210BE31, 0x23E0000021087A31, 0x26D0000000008421, 0x22E0000000074506,
  0x04F1080000064842, 0x23100000000B6631, 0x2310000000022951, 0x23100000000556B5,
  0x151000000008A884, 0x231000001D185B31, 0x11F00000000F8444, 0x0642109801821084,
  0x0842108000021084, 0x3042108300321084, 0x0004D64000000000, 0x0000000000000000]

/-- The display constants of a platform. -/
structure FrameBufferPcds where
  width : BitVec 32
  height : BitVec 32
  colorDepth : BitVec 8

def FrameBufferPcds.bpp (g : FrameBufferPcds) : BitVec 32 := (g.colorDepth / 8).setWidth 32

inductive FbStore
  | pixel (address : ℕ) (byte : Byte)
  | clear (address size : ℕ)
  | position (address : ℕ) (value : BitVec 32)
  deriving DecidableEq, Repr

def FbStore.piece : FbStore → ℕ × List Byte
  | .pixel address byte => (address, [byte])
  | .clear address size => (address, List.replicate size 0)
  | .position address value => (address, toLittleEndian 4 value.toNat)

/-- The memory and the stores that led to it. -/
structure FbTrace where
  memory : Store Byte
  stores : List FbStore

def FbTrace.emit (t : FbTrace) (store : FbStore) : FbTrace where
  memory := t.memory.write store.piece.1 store.piece.2
  stores := t.stores ++ [store]

/-- A trace and the pointer `Pixels`. -/
structure Drawing where
  trace : FbTrace
  pixels : ℕ

def Drawing.put (byte : Byte) (d : Drawing) : Drawing :=
  ⟨d.trace.emit (.pixel d.pixels byte), d.pixels + 1⟩

def Drawing.skip (stride : ℕ) (d : Drawing) : Drawing := ⟨d.trace, d.pixels + stride⟩

/-- The bytes of one color, lowest first. -/
def drawBytes : BitVec 32 → ℕ → Drawing → Drawing
  | _, 0, d => d
  | color, n + 1, d => drawBytes (color >>> 8) n (d.put (color.setWidth 8))

section Glyph

variable (g : FrameBufferPcds)

/-- The scale is below 256, so that the 8-bit loop counters of the source do not wrap. -/
def drawPixel (pixelColor : BitVec 32) (fontScale : ℕ) : Drawing → Drawing :=
  (drawBytes pixelColor g.bpp.toNat)^[fontScale]

def drawColumns (fontScale : ℕ) : ℕ → BitVec 32 → Drawing → Drawing
  | 0, _, d => d
  | n + 1, data, d =>
    let pixelColor : BitVec 32 := if data &&& 1 ≠ 0 then 0xFFFFFFFF else 0x00000000
    drawColumns fontScale n (data >>> 1) (drawPixel g pixelColor fontScale d)

def drawRow (rowData : BitVec 32) (fontScale stride : ℕ) : Drawing → Drawing :=
  (fun d => (drawColumns g fontScale fontWidth rowData d).skip stride)^[fontScale]

/-- The last `n` of the twelve rows. -/
def drawRows (bottomGlyph : BitVec 32) (fontScale stride : ℕ) :
    ℕ → BitVec 32 → Drawing → Drawing
  | 0, _, d => d
  | n + 1, rowData, d =>
    let rowData := if n + 1 = 6 then bottomGlyph else rowData
    drawRows bottomGlyph fontScale stride n (rowData >>> fontWidth)
      (drawRow g rowData fontScale stride d)

def drawStride (fontScale : ℕ) : ℕ :=
  ((g.width - BitVec.ofNat 32 fontWidth * BitVec.ofNat 32 fontScale) * g.bpp).toNat

def drawGlyph (glyph : BitVec 64) (fontScale : ℕ) (d : Drawing) : Drawing :=
  drawRows g (glyph.setWidth 32) fontScale (drawStride g fontScale) 12
    ((glyph >>> 32).setWidth 32) d

end Glyph

structure FbPosition where
  xPos : BitVec 32
  yPos : BitVec 32
  deriving DecidableEq, Repr

section Console

variable (g : FrameBufferPcds) (fbBase fbLength : ℕ)

def getFontScale : BitVec 8 :=
  let shorterDimension := if g.width < g.height then g.width else g.height
  if shorterDimension < 426 then 1 else (shorterDimension / 426).setWidth 8

/-- A division, undefined where the divisor is zero. -/
def divide (a b : BitVec 32) : Option (BitVec 32) := if b = 0 then none else some (a / b)

def getFbPositions (fontScale : BitVec 8) : Option FbPosition := do
  let xPos ← divide g.width (BitVec.ofNat 32 (fontWidth + 1) * fontScale.setWidth 32)
  let yPos ← divide g.height (BitVec.ofNat 32 (fontHeight - 4) * fontScale.setWidth 32)
  some ⟨xPos, yPos⟩

/-- The address of the cursor record. -/
def currentPosition : ℕ := fbBase + fbLength - 8

def FbTrace.xPos (t : FbTrace) : BitVec 32 :=
  BitVec.ofNat 32 (littleEndian (t.memory.read (currentPosition fbBase fbLength) 4))

def FbTrace.yPos (t : FbTrace) : BitVec 32 :=
  BitVec.ofNat 32 (littleEndian (t.memory.read (currentPosition fbBase fbLength + 4) 4))

def FbTrace.setXPos (value : BitVec 32) (t : FbTrace) : FbTrace :=
  t.emit (.position (currentPosition fbBase fbLength) value)

def FbTrace.setYPos (value : BitVec 32) (t : FbTrace) : FbTrace :=
  t.emit (.position (currentPosition fbBase fbLength + 4) value)

def advanceNewLine (maxPosition : FbPosition) (t : FbTrace) : FbTrace :=
  let t := t.setXPos fbBase fbLength 0
  let t := t.setYPos fbBase fbLength (t.yPos fbBase fbLength + 1)
  if maxPosition.yPos ≤ t.yPos fbBase fbLength then
    let t := t.emit (.clear fbBase (g.width * g.height * g.bpp).toNat)
    (t.setXPos fbBase fbLength 0).setYPos fbBase fbLength 0
  else t

/-- Where the glyph at the cursor starts. -/
def glyphPixels (fontScale : ℕ) (t : FbTrace) : ℕ :=
  fbBase + (t.yPos fbBase fbLength).toNat * ((fontHeight - 4) * fontScale) *
      (g.width * g.bpp).toNat +
    (t.xPos fbBase fbLength).toNat * ((fontWidth + 1) * fontScale) * g.bpp.toNat

def drawCharacter (maxPosition : FbPosition) (fontScale : ℕ) (character : Byte) (t : FbTrace) :
    FbTrace :=
  let glyph := glyphFont.getD (character.toNat - 32) 0
  let t := (drawGlyph g glyph fontScale ⟨t, glyphPixels g fbBase fbLength fontScale t⟩).trace
  let t := t.setXPos fbBase fbLength (t.xPos fbBase fbLength + 1)
  if maxPosition.xPos ≤ t.xPos fbBase fbLength then
    advanceNewLine g fbBase fbLength maxPosition t
  else t

/-- `none` is a division by zero. -/
def writeFrameBuffer (t : FbTrace) (character : Byte) : Option FbTrace :=
  let glyphFontScale := getFontScale g
  (getFbPositions g glyphFontScale).map (fun maxPosition =>
    if 127 ≤ character then t
    else if character < 32 then
      if character = 0x0A then advanceNewLine g fbBase fbLength maxPosition t
      else if character = 0x0D then t.setXPos fbBase fbLength 0
      else t
    else if t.xPos fbBase fbLength = 0 ∧ character = 0x20 then t
    else drawCharacter g fbBase fbLength maxPosition glyphFontScale.toNat character t)

def writeFrameBufferAll (t : FbTrace) (characters : List Byte) : Option FbTrace :=
  characters.foldlM (writeFrameBuffer g fbBase fbLength) t

end Console

end ProjectMu
