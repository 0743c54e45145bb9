import ProjectMu.LogBuffer

/-!
# The log is the end of what was written

A run of writes is a run of pushes, so what a reader of the region obtains is a suffix of
the bytes written since the ring was started.
-/

namespace ProjectMu

open ByteCodec ByteRange LazyRing

section Region

variable {base length : ℕ}

theorem logRing_writeLog {memory : Store Byte} (hsize : 0 < logSize length)
    (hmagic : HasLogMagic base memory) (chars : List Byte) :
    logRing base length (writeLog base length memory chars) =
      (logRing base length memory).pushAll chars := by
  induction chars generalizing memory with
  | nil => rfl
  | cons char chars ih =>
    obtain ⟨hring, hmagic'⟩ := logRing_writeLogBuffer hsize memory char
    rw [if_pos hmagic] at hring
    change logRing base length (writeLog base length _ chars) = _
    rw [ih hmagic', hring]
    rfl

/-- A region without the magic holds a fresh ring from the first byte on. -/
theorem logRing_writeLog_fresh {memory : Store Byte} (hsize : 0 < logSize length)
    (hmagic : ¬HasLogMagic base memory) {chars : List Byte} (hne : chars ≠ []) :
    logRing base length (writeLog base length memory chars) =
      (RingBuffer.fresh (logRing base length memory).text).pushAll chars := by
  cases chars with
  | nil => exact absurd rfl hne
  | cons char chars =>
    obtain ⟨hring, hmagic'⟩ := logRing_writeLogBuffer hsize memory char
    rw [if_neg hmagic] at hring
    change logRing base length (writeLog base length _ chars) = _
    rw [logRing_writeLog hsize hmagic' chars, hring]
    rfl

theorem readLog_eq_contents {memory : Store Byte} (h : logCursor base memory ≤ logSize length) :
    readLog base length memory = (logRing base length memory).contents := by
  set text := base + logBufferHeaderSize with htextDef
  have htake : memory.read text (logCursor base memory) =
      (memory.read text (logSize length)).take (logCursor base memory) := by
    have := Store.slice_read memory text (logSize length) 0 (logCursor base memory) (by omega)
    rw [Nat.add_zero] at this
    exact this.symm
  have hdrop : memory.read (text + logCursor base memory)
      (logSize length - logCursor base memory) =
      (memory.read text (logSize length)).drop (logCursor base memory) := by
    have := Store.slice_read memory text (logSize length) (logCursor base memory)
      (logSize length - logCursor base memory) (by omega)
    rw [← this, slice, List.take_of_length_le]
    rw [List.length_drop, Store.length_read]
  unfold readLog RingBuffer.contents
  simp only [← htextDef, htake, hdrop, logRing]
  by_cases hw : logWrapped base memory = 0 <;> simp [hw]

/-- All stores of a write lie in the region. -/
theorem writeLogBufferStores_inside (hlength : logBufferHeaderSize < length)
    (hbound : length < 2 ^ 32) (memory : Store Byte) (char : Byte) :
    ∀ piece ∈ writeLogBufferStores base length char memory,
      base ≤ piece.1 ∧ piece.1 + piece.2.length ≤ base + length := by
  have hsize := logSize_eq hbound
  have hheader : logBufferHeaderSize = 16 := rfl
  intro piece hpiece
  set fresh := memory.writeAll (startFreshRing base memory) with hfresh
  set wrapped := fresh.writeAll (wrapLogCursor base length fresh) with hwrapped
  have hne : (logRing base length fresh).text ≠ [] := by
    rw [← List.length_pos_iff_ne_nil, length_logRing_text]
    omega
  have hcursor : logCursor base wrapped < logSize length := by
    have hlt := cursor_wrapAround_lt hne
    rw [← (@wrapLogCursor_effect base length fresh).1, length_logRing_text] at hlt
    exact hlt
  have hcount := length_toLittleEndian 4
  rcases List.mem_append.mp hpiece with hpiece | hpiece
  · rcases List.mem_append.mp hpiece with hpiece | hpiece
    · unfold startFreshRing at hpiece
      split_ifs at hpiece
      · cases hpiece
      · simp only [List.mem_cons, List.not_mem_nil, or_false] at hpiece
        rcases hpiece with rfl | rfl | rfl <;> simp [logBufferMagic] <;> omega
    · unfold wrapLogCursor at hpiece
      split_ifs at hpiece
      · simp only [List.mem_cons, List.not_mem_nil, or_false] at hpiece
        rcases hpiece with rfl | rfl <;> simp <;> omega
      · cases hpiece
  · simp only [storeCharacter, List.mem_cons, List.not_mem_nil, or_false] at hpiece
    change piece = (base + logBufferHeaderSize + logCursor base wrapped, _) ∨ _ at hpiece
    rcases hpiece with rfl | rfl
    · simp
      omega
    · simp
      omega

theorem writeLog_append (memory : Store Byte) (a b : List Byte) :
    writeLog base length memory (a ++ b) = writeLog base length (writeLog base length memory a) b :=
  List.foldl_append

/-- What a write does from any contents of the region: its stores lie inside, it leaves the
cursor inside, and it starts a ring of its own where there is no magic. -/
structure WriteKeepsRing (base length : ℕ) (before : Store Byte) (char : Byte) : Prop where
  inside : ∀ piece ∈ writeLogBufferStores base length char before,
    base ≤ piece.1 ∧ piece.1 + piece.2.length ≤ base + length
  cursor_le : logCursor base (writeLogBuffer base length before char) ≤
    length - logBufferHeaderSize
  restart : ¬HasLogMagic base before →
    HasLogMagic base (writeLogBuffer base length before char) ∧
      logCursor base (writeLogBuffer base length before char) = 1 ∧
      logWrapped base (writeLogBuffer base length before char) = 0 ∧
      readLog base length (writeLogBuffer base length before char) = [char]

/-- Every write of a run keeps the ring, and from a region without magic a reader obtains the
last bytes that were written. -/
theorem writeLog_ring {base length : ℕ} (hlength : logBufferHeaderSize < length)
    (hbound : length < 2 ^ 32) (memory : Store Byte) (chars : List Byte) :
    (∀ done char later, chars = done ++ char :: later →
      WriteKeepsRing base length (writeLog base length memory done) char) ∧
    (¬HasLogMagic base memory → chars ≠ [] →
      readLog base length (writeLog base length memory chars) =
        chars.drop (chars.length - (length - logBufferHeaderSize))) := by
  have hsize := logSize_eq hbound
  have hpos : 0 < logSize length := by omega
  have htext (m : Store Byte) : (logRing base length m).text ≠ [] := by
    rw [← List.length_pos_iff_ne_nil, length_logRing_text]
    exact hpos
  have hcursor (m : Store Byte) (char : Byte) :
      logCursor base (writeLogBuffer base length m char) ≤ logSize length := by
    have hring := (@logRing_writeLogBuffer base length hpos m char).1
    have hle : (logRing base length (writeLogBuffer base length m char)).cursor ≤
        logSize length := by
      rw [hring]
      split_ifs
      · exact (cursor_push_le (htext m) char).trans_eq (length_logRing_text m)
      · exact (cursor_push_le (r := RingBuffer.fresh _) (htext m) char).trans_eq
          (length_logRing_text m)
    exact hle
  have hlast (m : Store Byte) (hmagic : ¬HasLogMagic base m) {cs : List Byte} (hne : cs ≠ []) :
      readLog base length (writeLog base length m cs) = lastN (logSize length) cs := by
    have hle : logCursor base (writeLog base length m cs) ≤ logSize length := by
      rcases List.eq_nil_or_concat cs with hnil | ⟨done, char, rfl⟩
      · exact absurd hnil hne
      · rw [List.concat_eq_append, writeLog_append]
        exact hcursor (writeLog base length m done) char
    obtain ⟨hcontents, -⟩ := contents_pushAll_fresh (htext m) cs
    rw [readLog_eq_contents hle, logRing_writeLog_fresh hpos hmagic hne, hcontents,
      length_logRing_text]
  refine ⟨?_, ?_⟩
  · intro done char later _
    set before := writeLog base length memory done with hbefore
    refine ⟨writeLogBufferStores_inside hlength hbound before char, ?_, ?_⟩
    · rw [← hsize]
      exact hcursor before char
    · intro hmagic
      obtain ⟨hring, hmagic'⟩ := @logRing_writeLogBuffer base length hpos before char
      rw [if_neg hmagic] at hring
      rw [push_fresh (htext before)] at hring
      have hread := hlast before hmagic (List.cons_ne_nil char [])
      rw [lastN_of_length_le (show [char].length ≤ logSize length from hpos)] at hread
      have hwrapped := congrArg RingBuffer.wrapped hring
      exact ⟨hmagic', congrArg RingBuffer.cursor hring, by simpa [logRing] using hwrapped, hread⟩
  · intro hmagic hne
    rw [hlast memory hmagic hne, lastN, hsize]

end Region

/-- Five bytes in a ring of four. -/
theorem writeLog_ring_wrapped :
    (∀ done char later, [0x61, 0x62, 0x63, 0x64, 0x65] = done ++ char :: later →
      WriteKeepsRing 0x1000 20 (writeLog 0x1000 20 (fun _ => 0) done) char) ∧
    (¬HasLogMagic 0x1000 (fun _ => 0) → [0x61, 0x62, 0x63, 0x64, 0x65] ≠ ([] : List Byte) →
      readLog 0x1000 20 (writeLog 0x1000 20 (fun _ => 0) [0x61, 0x62, 0x63, 0x64, 0x65]) =
        [0x61, 0x62, 0x63, 0x64, 0x65].drop 1) :=
  writeLog_ring (by decide) (by norm_num) _ _

/-- Before the first byte the header is not one of the log, and a reader that trusts it
obtains text that was never written. -/
theorem readLog_beforeFirstByte :
    ¬HasLogMagic 0 (fun a => if a = 8 then 1 else 0) ∧
      readLog 0 17 (writeLog 0 17 (fun a => if a = 8 then 1 else 0) []) = [0] := by
  refine ⟨by decide, by decide⟩

end ProjectMu
