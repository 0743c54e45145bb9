import ProjectMu.ByteCodec
import ProjectMu.LazyRing

/-!
# The persistent log

The log region starts with a header (a magic, the cursor and a wrapped flag) and keeps its
contents over a warm reboot. `writeLogBuffer` stores one byte; its stores are listed in
order, so that where they go can be stated. On a region with the magic it is a push onto a
ring, and on any other region a push onto a fresh one.
-/

namespace ProjectMu

open ByteCodec ByteRange LazyRing

/-- `SILILOG1` -/
def logBufferMagic : List Byte := [0x53, 0x49, 0x4C, 0x49, 0x4C, 0x4F, 0x47, 0x31]

def logBufferHeaderSize : ℕ := 16

section Region

variable (base length : ℕ)

def logSize : ℕ := (length - logBufferHeaderSize) % 2 ^ 32

def HasLogMagic (memory : Store Byte) : Prop := memory.read base 8 = logBufferMagic

instance (memory : Store Byte) : Decidable (HasLogMagic base memory) :=
  inferInstanceAs (Decidable (_ = _))

def logCursor (memory : Store Byte) : ℕ := littleEndian (memory.read (base + 8) 4)

def logWrapped (memory : Store Byte) : ℕ := littleEndian (memory.read (base + 12) 4)

/-- The stores that start a fresh ring where there is no magic. -/
def startFreshRing (memory : Store Byte) : List (ℕ × List Byte) :=
  if HasLogMagic base memory then []
  else [(base, logBufferMagic), (base + 8, toLittleEndian 4 0), (base + 12, toLittleEndian 4 0)]

/-- The stores that take the cursor back to the front. -/
def wrapLogCursor (memory : Store Byte) : List (ℕ × List Byte) :=
  if logSize length ≤ logCursor base memory then
    [(base + 8, toLittleEndian 4 0), (base + 12, toLittleEndian 4 1)]
  else []

def storeCharacter (char : Byte) (memory : Store Byte) : List (ℕ × List Byte) :=
  [(base + logBufferHeaderSize + logCursor base memory, [char]),
    (base + 8, toLittleEndian 4 (logCursor base memory + 1))]

def writeLogBufferStores (char : Byte) (memory : Store Byte) : List (ℕ × List Byte) :=
  let fresh := startFreshRing base memory
  let wrap := wrapLogCursor base length (memory.writeAll fresh)
  fresh ++ wrap ++ storeCharacter base char ((memory.writeAll fresh).writeAll wrap)

def writeLogBuffer (memory : Store Byte) (char : Byte) : Store Byte :=
  memory.writeAll (writeLogBufferStores base length char memory)

/-- All bytes written to the log, over any number of warm reboots. -/
def writeLog (memory : Store Byte) (chars : List Byte) : Store Byte :=
  chars.foldl (writeLogBuffer base length) memory

/-- What a reader of the region obtains. -/
def readLog (memory : Store Byte) : List Byte :=
  let text := base + logBufferHeaderSize
  let cursor := logCursor base memory
  if logWrapped base memory = 0 then memory.read text cursor
  else memory.read (text + cursor) (logSize length - cursor) ++ memory.read text cursor

def logRing (memory : Store Byte) : RingBuffer Byte where
  text := memory.read (base + logBufferHeaderSize) (logSize length)
  cursor := logCursor base memory
  wrapped := decide (logWrapped base memory ≠ 0)

variable {base length}

@[simp] theorem length_logRing_text (memory : Store Byte) :
    (logRing base length memory).text.length = logSize length :=
  Store.length_read ..

theorem logSize_eq (h : length < 2 ^ 32) : logSize length = length - logBufferHeaderSize :=
  Nat.mod_eq_of_lt (lt_of_le_of_lt (Nat.sub_le _ _) h)

theorem logSize_lt : logSize length < 2 ^ 32 := Nat.mod_lt _ (by norm_num)

theorem startFreshRing_hasLogMagic (memory : Store Byte) :
    HasLogMagic base (memory.writeAll (startFreshRing base memory)) := by
  unfold startFreshRing
  split_ifs with h
  · exact h
  · have hapart : ([(base, logBufferMagic), (base + 8, toLittleEndian 4 0),
        (base + 12, toLittleEndian 4 0)].map Store.pieceRegion).Pairwise Region.Disjoint := by
      simp [Store.pieceRegion, Region.Disjoint, logBufferMagic]
    exact Store.read_writeAll memory hapart _ List.mem_cons_self

/-- The ring that the next byte goes to. -/
theorem logRing_startFreshRing (memory : Store Byte) :
    logRing base length (memory.writeAll (startFreshRing base memory)) =
      if HasLogMagic base memory then logRing base length memory
      else RingBuffer.fresh (logRing base length memory).text := by
  unfold startFreshRing
  split_ifs with h
  · rfl
  · set pieces := [(base, logBufferMagic), (base + 8, toLittleEndian 4 0),
      (base + 12, toLittleEndian 4 0)] with hpieces
    have hapart : (pieces.map Store.pieceRegion).Pairwise Region.Disjoint := by
      simp [hpieces, Store.pieceRegion, Region.Disjoint, logBufferMagic]
    have hcursor := Store.read_writeAll memory hapart (base + 8, toLittleEndian 4 0)
      (by simp [hpieces])
    have hwrapped := Store.read_writeAll memory hapart (base + 12, toLittleEndian 4 0)
      (by simp [hpieces])
    have htext : (memory.writeAll pieces).AgreeOn memory
        ⟨base + logBufferHeaderSize, logSize length⟩ := by
      apply Store.agreeOn_writeAll
      intro piece hpiece
      simp only [hpieces, List.mem_cons, List.not_mem_nil, or_false] at hpiece
      rcases hpiece with rfl | rfl | rfl <;>
        simp [Store.pieceRegion, Region.Disjoint, logBufferMagic, logBufferHeaderSize]
    rw [length_toLittleEndian] at hcursor hwrapped
    unfold logRing logCursor logWrapped RingBuffer.fresh
    rw [hcursor, hwrapped, htext.read le_rfl, littleEndian_toLittleEndian]
    rfl

theorem wrapLogCursor_effect (memory : Store Byte) :
    logRing base length (memory.writeAll (wrapLogCursor base length memory)) =
        (logRing base length memory).wrapAround ∧
      (HasLogMagic base memory →
        HasLogMagic base (memory.writeAll (wrapLogCursor base length memory))) := by
  unfold wrapLogCursor RingBuffer.wrapAround
  rw [length_logRing_text]
  change logRing base length (memory.writeAll (if logSize length ≤ logCursor base memory then _
    else _)) = (if logSize length ≤ logCursor base memory then _ else _) ∧ _
  split_ifs with h
  · set pieces := [(base + 8, toLittleEndian 4 0), (base + 12, toLittleEndian 4 1)] with hpieces
    have hapart : (pieces.map Store.pieceRegion).Pairwise Region.Disjoint := by
      simp [hpieces, Store.pieceRegion, Region.Disjoint]
    have hcursor := Store.read_writeAll memory hapart (base + 8, toLittleEndian 4 0)
      (by simp [hpieces])
    have hwrapped := Store.read_writeAll memory hapart (base + 12, toLittleEndian 4 1)
      (by simp [hpieces])
    have hother {off n : ℕ} (hoff : off + n ≤ base + 8 ∨ base + 16 ≤ off) :
        (memory.writeAll pieces).read off n = memory.read off n := by
      refine Store.AgreeOn.read (r := ⟨off, n⟩) (Store.agreeOn_writeAll memory ?_) le_rfl
      intro piece hpiece
      simp only [hpieces, List.mem_cons, List.not_mem_nil, or_false] at hpiece
      rcases hpiece with rfl | rfl <;> simp [Store.pieceRegion, Region.Disjoint] <;> omega
    rw [length_toLittleEndian] at hcursor hwrapped
    refine ⟨?_, ?_⟩
    · unfold logRing logCursor logWrapped
      rw [hcursor, hwrapped, hother (Or.inr (by simp [logBufferHeaderSize])),
        littleEndian_toLittleEndian, littleEndian_toLittleEndian]
      rfl
    · intro hmagic
      rw [HasLogMagic, hother (Or.inl le_rfl)]
      exact hmagic
  · exact ⟨rfl, id⟩

theorem read_write_one (memory : Store Byte) (off i n : ℕ) (char : Byte) :
    (memory.write (off + i) [char]).read off n = (memory.read off n).set i char := by
  ext1 j
  rw [Store.getElem?_read, List.getElem?_set, Store.length_read, Store.getElem?_read]
  by_cases hij : i = j
  · rw [if_pos hij, ← hij]
    simp [Store.write]
  · rw [if_neg hij, Store.write_of_not_mem]
    rw [List.length_singleton]
    omega

theorem storeCharacter_effect (char : Byte) {memory : Store Byte}
    (hcursor : logCursor base memory < logSize length) :
    logRing base length (memory.writeAll (storeCharacter base char memory)) =
        { logRing base length memory with
          text := (logRing base length memory).text.set (logCursor base memory) char
          cursor := logCursor base memory + 1 } ∧
      (HasLogMagic base memory →
        HasLogMagic base (memory.writeAll (storeCharacter base char memory))) := by
  have hsize := @logSize_lt length
  set stored := memory.write (base + logBufferHeaderSize + logCursor base memory) [char] with
    hstored
  set count := toLittleEndian 4 (logCursor base memory + 1) with hcount
  have hall : memory.writeAll (storeCharacter base char memory) = stored.write (base + 8) count :=
    rfl
  have hlen : count.length = 4 := length_toLittleEndian ..
  have hother {off n : ℕ} (hoff : off + n ≤ base + 8 ∨ base + 12 ≤ off) :
      (stored.write (base + 8) count).read off n = stored.read off n := by
    refine Store.AgreeOn.read (r := ⟨off, n⟩) (Store.agreeOn_write ?_) le_rfl
    unfold Region.Disjoint
    dsimp only
    omega
  have hheader {off n : ℕ} (hoff : off + n ≤ base + 16) :
      stored.read off n = memory.read off n := by
    refine Store.AgreeOn.read (r := ⟨off, n⟩) (Store.agreeOn_write ?_) le_rfl
    unfold Region.Disjoint logBufferHeaderSize
    dsimp only
    omega
  have hnew : (stored.write (base + 8) count).read (base + 8) 4 = count := by
    have := Store.read_write_self stored (base + 8) count
    rwa [hlen] at this
  have hvalue : littleEndian count = logCursor base memory + 1 := by
    rw [hcount, littleEndian_toLittleEndian, Nat.mod_eq_of_lt]
    change _ < 2 ^ 32
    omega
  rw [hall]
  refine ⟨?_, ?_⟩
  · unfold logRing
    have htext : (stored.write (base + 8) count).read (base + logBufferHeaderSize)
        (logSize length) = (memory.read (base + logBufferHeaderSize) (logSize length)).set
          (logCursor base memory) char := by
      rw [hother (Or.inr (by simp [logBufferHeaderSize])), hstored, read_write_one]
    have hwrapped : logWrapped base (stored.write (base + 8) count) = logWrapped base memory := by
      unfold logWrapped
      rw [hother (Or.inr le_rfl), hheader (by omega)]
    have hnext : logCursor base (stored.write (base + 8) count) = logCursor base memory + 1 := by
      rw [logCursor, hnew, hvalue]
    rw [htext, hwrapped, hnext]
  · intro hmagic
    rw [HasLogMagic, hother (Or.inl le_rfl), hheader (by omega)]
    exact hmagic

theorem writeAll_append (memory : Store Byte) (a b : List (ℕ × List Byte)) :
    memory.writeAll (a ++ b) = (memory.writeAll a).writeAll b := List.foldl_append

/-- One byte is pushed onto the ring, or onto a fresh one where there is no magic. -/
theorem logRing_writeLogBuffer (hsize : 0 < logSize length) (memory : Store Byte) (char : Byte) :
    logRing base length (writeLogBuffer base length memory char) =
        (if HasLogMagic base memory then logRing base length memory
          else RingBuffer.fresh (logRing base length memory).text).push char ∧
      HasLogMagic base (writeLogBuffer base length memory char) := by
  set fresh := memory.writeAll (startFreshRing base memory) with hfresh
  set wrapped := fresh.writeAll (wrapLogCursor base length fresh) with hwrapped
  have hall : writeLogBuffer base length memory char =
      wrapped.writeAll (storeCharacter base char wrapped) := by
    unfold writeLogBuffer writeLogBufferStores
    rw [writeAll_append, writeAll_append]
  obtain ⟨hwrapRing, hwrapMagic⟩ := @wrapLogCursor_effect base length fresh
  have hne : (logRing base length fresh).text ≠ [] := by
    rw [← List.length_pos_iff_ne_nil, length_logRing_text]
    exact hsize
  have hcursor : logCursor base wrapped < logSize length := by
    have hlt := cursor_wrapAround_lt hne
    rw [← hwrapRing, length_logRing_text] at hlt
    exact hlt
  obtain ⟨hstoreRing, hstoreMagic⟩ := storeCharacter_effect char hcursor
  rw [← logRing_startFreshRing, hall, hstoreRing]
  refine ⟨?_, hstoreMagic (hwrapMagic (startFreshRing_hasLogMagic memory))⟩
  have hcursorEq : logCursor base wrapped = (logRing base length fresh).wrapAround.cursor := by
    rw [← hwrapRing]
    rfl
  have htext : (logRing base length fresh).wrapAround.text = (logRing base length fresh).text := by
    unfold RingBuffer.wrapAround
    split_ifs <;> rfl
  rw [hcursorEq, hwrapRing, htext]
  rfl

end Region

end ProjectMu
