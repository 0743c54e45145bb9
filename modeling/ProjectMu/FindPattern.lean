import ProjectMu.AccessLog
import ProjectMu.Arm64Program
import ProjectMu.RestartSearch

/-!
# The search for a byte pattern

`findPattern` compares memory with a pattern in text form: bytes in hexadecimal digits and question
marks, with spaces between them. It restarts behind a byte that does not match, and it looks two
characters behind each token for the end of the text.
-/

namespace ProjectMu

open AccessLog Arm64 RestartSearch

def getBits (x : BitVec 8) : ℕ :=
  if 0x41#8 ≤ x &&& 0xDF#8 ∧ x &&& 0xDF#8 ≤ 0x46#8 then (x &&& 0xDF#8).toNat - 0x41 + 0xA
  else if 0x30#8 ≤ x ∧ x ≤ 0x39#8 then x.toNat - 0x30 else 0

def getByte (a b : BitVec 8) : ℕ := getBits a <<< 4 ||| getBits b

def readChar (pattern : ℕ → BitVec 8) (i : ℕ) : Logged ℕ (BitVec 8) := access i (pattern i)

/-- Whether a byte matches the token at the first character of the pattern that is left. -/
def tokenMatches (pattern : ℕ → BitVec 8) (currentPattern : ℕ) (charByte byte : BitVec 8) :
    Logged ℕ Bool :=
  if charByte = 0x3F then pure true
  else do
    let low ← readChar pattern (currentPattern + 1)
    pure (byte.toNat == getByte charByte low)

/-- The loop over the bytes that are left of the range, with `FirstMatch` and the place in the
pattern. The log has the characters of the pattern that are read. -/
def findPatternLoop (mem : Arm64.Memory) (pattern : ℕ → BitVec 8) :
    ℕ → Address → Address → ℕ → Logged ℕ Address
  | 0, _, _, _ => pure 0
  | n + 1, current, firstMatch, currentPattern => do
    let charByte ← readChar pattern currentPattern
    if charByte = 0 then pure firstMatch
    else
      let found ← tokenMatches pattern currentPattern charByte (mem current)
      if found then
        let firstMatch := if firstMatch = 0 then current else firstMatch
        let next ← readChar pattern (currentPattern + 2)
        let width := if charByte = 0x3F then 2 else 3
        if next = 0 then pure firstMatch
        else findPatternLoop mem pattern n (current + 1) firstMatch (currentPattern + width)
      else findPatternLoop mem pattern n (current + 1) 0 0

/-- No byte is looked at where `Base + Length` is past the end of the address space. -/
def findPattern (mem : Arm64.Memory) (base : Address) (length : BitVec 64)
    (pattern : ℕ → BitVec 8) : Logged ℕ Address :=
  findPatternLoop mem pattern ((base + length).toNat - base.toNat) base 0 0

/-! ## The text of a pattern -/

/-- A hexadecimal digit in upper or lower case. -/
structure HexDigit where
  value : Fin 16
  lowercase : Bool
  deriving DecidableEq

def HexDigit.char (d : HexDigit) : BitVec 8 :=
  if d.value.val < 10 then BitVec.ofNat 8 (0x30 + d.value.val)
  else BitVec.ofNat 8 ((if d.lowercase then 0x61 else 0x41) + (d.value.val - 10))

inductive PatternToken
  | wildcard
  | byte (high low : HexDigit)
  deriving DecidableEq

namespace PatternToken

def text : PatternToken → List (BitVec 8)
  | wildcard => [0x3F]
  | byte high low => [high.char, low.char]

def accepts : PatternToken → BitVec 8 → Bool
  | wildcard, _ => true
  | byte high low, b => b.toNat == 16 * high.value.val + low.value.val

theorem length_text_pos (t : PatternToken) : 0 < t.text.length := by
  cases t <;> exact Nat.succ_pos _

end PatternToken

def patternText (tokens : List PatternToken) : List (BitVec 8) :=
  [0x20#8].intercalate (tokens.map PatternToken.text)

theorem getBits_char (d : HexDigit) : getBits d.char = d.value.val := by
  obtain ⟨value, lowercase⟩ := d
  revert value lowercase
  decide

theorem getByte_char (high low : HexDigit) :
    getByte high.char low.char = 16 * high.value.val + low.value.val := by
  rw [getByte, getBits_char, getBits_char, ← Nat.shiftLeft_add_eq_or_of_lt low.value.isLt,
    Nat.shiftLeft_eq, Nat.mul_comm]

theorem char_ne (d : HexDigit) : d.char ≠ 0 ∧ d.char ≠ 0x3F := by
  obtain ⟨value, lowercase⟩ := d
  revert value lowercase
  decide

/-- The text with its terminator stands at a place of the buffer. -/
def HoldsText (pattern : ℕ → BitVec 8) : ℕ → List (BitVec 8) → Prop
  | p, [] => pattern p = 0
  | p, c :: text => pattern p = c ∧ HoldsText pattern (p + 1) text

variable {mem : Arm64.Memory} {pattern : ℕ → BitVec 8} {t : PatternToken}
  {tokens rest : List PatternToken} {n p : ℕ} {current firstMatch : Address} {b : BitVec 8}

theorem patternText_singleton (t : PatternToken) : patternText [t] = t.text :=
  List.intercalate_singleton

theorem patternText_cons (t : PatternToken) (h : rest ≠ []) :
    patternText (t :: rest) = t.text ++ 0x20#8 :: patternText rest := by
  rw [patternText, List.map_cons,
    List.intercalate_cons_of_ne_nil (fun hnil => h (List.map_eq_nil_iff.1 hnil)), patternText,
    List.append_assoc, List.singleton_append]

theorem HoldsText.append_right {first text : List (BitVec 8)}
    (h : HoldsText pattern p (first ++ text)) : HoldsText pattern (p + first.length) text := by
  induction first generalizing p with
  | nil => exact h
  | cons c first ih =>
    have hrest := ih h.2
    rw [Nat.add_right_comm, Nat.add_assoc] at hrest
    exact hrest

theorem holdsText_last (h : HoldsText pattern p (patternText [t])) :
    HoldsText pattern (p + t.text.length) [] := by
  apply HoldsText.append_right
  rw [List.append_nil, ← patternText_singleton]
  exact h

theorem holdsText_more (hrest : rest ≠ []) (h : HoldsText pattern p (patternText (t :: rest))) :
    pattern (p + t.text.length) = 0x20 ∧
      HoldsText pattern (p + t.text.length + 1) (patternText rest) := by
  rw [patternText_cons t hrest] at h
  exact h.append_right

theorem exists_patternText (t : PatternToken) (rest : List PatternToken) :
    ∃ more, patternText (t :: rest) = t.text ++ more := by
  cases rest with
  | nil => exact ⟨[], by rw [patternText_singleton, List.append_nil]⟩
  | cons u rest => exact ⟨_, patternText_cons t (List.cons_ne_nil u rest)⟩

theorem patternText_ne_nil (h : tokens ≠ []) : patternText tokens ≠ [] := by
  cases tokens with
  | nil => exact absurd rfl h
  | cons t rest =>
    obtain ⟨more, hmore⟩ := exists_patternText t rest
    rw [hmore]
    exact List.append_ne_nil_of_left_ne_nil (List.length_pos_iff.1 t.length_text_pos) _

theorem holdsText_wildcard (h : HoldsText pattern p (patternText (.wildcard :: rest))) :
    pattern p = 0x3F := by
  obtain ⟨more, hmore⟩ := exists_patternText .wildcard rest
  rw [hmore] at h
  exact h.1

theorem holdsText_byte {high low : HexDigit}
    (h : HoldsText pattern p (patternText (.byte high low :: rest))) :
    pattern p = high.char ∧ pattern (p + 1) = low.char := by
  obtain ⟨more, hmore⟩ := exists_patternText (.byte high low) rest
  rw [hmore] at h
  exact ⟨h.1, h.2.1⟩

theorem holdsText_ne_zero (h : HoldsText pattern p (patternText (t :: rest))) :
    pattern p ≠ 0 := by
  cases t with
  | wildcard =>
    rw [holdsText_wildcard h]
    decide
  | byte high low =>
    rw [(holdsText_byte h).1]
    exact (char_ne high).1

/-- A token is compared with the characters of its own text. -/
theorem tokenMatches_eq (h : HoldsText pattern p (patternText (t :: rest))) (b : BitVec 8) :
    ∃ chars, (∀ i ∈ chars, i < p + t.text.length) ∧
      tokenMatches pattern p (pattern p) b = ⟨t.accepts b, chars⟩ := by
  cases t with
  | wildcard =>
    exact ⟨[], fun _ hi => absurd hi List.not_mem_nil, if_pos (holdsText_wildcard h)⟩
  | byte high low =>
    obtain ⟨hhigh, hlow⟩ := holdsText_byte h
    refine ⟨[p + 1], fun i hi => ?_, ?_⟩
    · rw [List.mem_singleton.1 hi]
      exact Nat.lt_succ_self _
    · rw [tokenMatches, hhigh, if_neg (char_ne high).2, readChar, hlow, access_bind,
        getByte_char]
      rfl

/-- A byte that the token refuses. -/
theorem findPatternLoop_refused (h : HoldsText pattern p (patternText (t :: rest)))
    (hrefused : ¬t.accepts (mem current)) :
    ∃ chars, (∀ i ∈ chars, i < p + t.text.length) ∧
      findPatternLoop mem pattern (n + 1) current firstMatch p =
        ⟨(findPatternLoop mem pattern n (current + 1) 0 0).value,
          chars ++ (findPatternLoop mem pattern n (current + 1) 0 0).log⟩ := by
  obtain ⟨chars, hchars, hmatch⟩ := tokenMatches_eq h (mem current)
  refine ⟨p :: chars, List.forall_mem_cons.2 ⟨?_, hchars⟩, ?_⟩
  · exact Nat.lt_add_of_pos_right t.length_text_pos
  · rw [findPatternLoop, readChar, access_bind, if_neg (holdsText_ne_zero h), hmatch,
      bind_of_value rfl, if_neg hrefused]
    rfl

/-- A byte that the token accepts: the character two places on is read. -/
theorem findPatternLoop_accepted (h : HoldsText pattern p (patternText (t :: rest)))
    (haccepts : t.accepts (mem current)) :
    ∃ chars, (∀ i ∈ chars, i < p + t.text.length) ∧
      let first := if firstMatch = 0 then current else firstMatch
      let width := if pattern p = 0x3F then 2 else 3
      let run := if pattern (p + 2) = 0 then pure first
        else findPatternLoop mem pattern n (current + 1) first (p + width)
      findPatternLoop mem pattern (n + 1) current firstMatch p =
        ⟨run.value, (chars ++ [p + 2]) ++ run.log⟩ := by
  obtain ⟨chars, hchars, hmatch⟩ := tokenMatches_eq h (mem current)
  refine ⟨p :: chars, List.forall_mem_cons.2 ⟨?_, hchars⟩, ?_⟩
  · exact Nat.lt_add_of_pos_right t.length_text_pos
  · intro first width run
    rw [findPatternLoop, readChar, access_bind, if_neg (holdsText_ne_zero h), hmatch,
      bind_of_value rfl, if_pos haccepts, List.append_assoc]
    rfl

/-- Where the loop goes on behind a token that is not the last one. -/
theorem next_of_more (hrest : rest ≠ []) (h : HoldsText pattern p (patternText (t :: rest))) :
    pattern (p + 2) ≠ 0 ∧
      p + (if pattern p = 0x3F then 2 else 3) = p + t.text.length + 1 := by
  obtain ⟨hspace, hmore⟩ := holdsText_more hrest h
  cases t with
  | wildcard =>
    cases rest with
    | nil => exact absurd rfl hrest
    | cons u rest =>
      rw [if_pos (holdsText_wildcard h)]
      exact ⟨holdsText_ne_zero hmore, rfl⟩
  | byte high low =>
    refine ⟨?_, ?_⟩
    · rw [show p + 2 = p + (PatternToken.byte high low).text.length from rfl, hspace]
      decide
    · rw [(holdsText_byte h).1, if_neg (char_ne high).2]
      rfl

/-- The address of a search result. -/
def hitAddress (base : Address) : Option ℕ → Address
  | none => 0
  | some s => base + BitVec.ofNat 64 s

/-- The bytes of the range. -/
def bytesFrom (mem : Arm64.Memory) (base : Address) (i : ℕ) : BitVec 8 :=
  mem (base + BitVec.ofNat 64 i)

theorem add_ofNat_ne_zero {base : Address} {i : ℕ} (hbase : base ≠ 0)
    (h : base.toNat + i < 2 ^ 64) : base + BitVec.ofNat 64 i ≠ 0 := by
  intro hzero
  have hnat := congrArg BitVec.toNat hzero
  rw [BitVec.toNat_add, BitVec.toNat_ofNat, Nat.add_mod_mod, Nat.mod_eq_of_lt h] at hnat
  exact hbase (BitVec.eq_of_toNat_eq (Nat.eq_zero_of_add_eq_zero_right hnat))

/-- A pattern that ends in a question mark makes the loop read past the terminator at a match;
otherwise the loop does what the search with restarts does. -/
def FollowsSearch (base : Address) (tokens : List PatternToken) (hit : Option ℕ)
    (run : Logged ℕ Address) : Prop :=
  if tokens.getLast? = some .wildcard ∧ hit ≠ none then
    ∃ i ∈ run.log, (patternText tokens).length < i
  else run.value = hitAddress base hit ∧ ∀ i ∈ run.log, i ≤ (patternText tokens).length

/-- Characters of the text read before do not matter. -/
theorem FollowsSearch.cons {base : Address} {hit : Option ℕ} {run : Logged ℕ Address}
    {chars : List ℕ} (h : FollowsSearch base tokens hit run)
    (hchars : ∀ i ∈ chars, i ≤ (patternText tokens).length) :
    FollowsSearch base tokens hit ⟨run.value, chars ++ run.log⟩ := by
  rw [FollowsSearch] at h ⊢
  split
  next hlast =>
    rw [if_pos hlast] at h
    obtain ⟨i, hi, hlt⟩ := h
    exact ⟨i, List.mem_append_right _ hi, hlt⟩
  next hlast =>
    rw [if_neg hlast] at h
    exact ⟨h.1, List.forall_mem_append.2 ⟨hchars, h.2⟩⟩

theorem forall_chars_le {chars : List ℕ} {i stop : ℕ} (hchars : ∀ c ∈ chars, c < i)
    (hi : i ≤ stop) (hp : p ≤ stop) : ∀ c ∈ chars ++ [p], c ≤ stop := by
  intro c hc
  rcases List.mem_append.1 hc with hc | hc
  · exact (hchars c hc).le.trans hi
  · rw [List.mem_singleton.1 hc]
    exact hp

/-- The last token is accepted: the attempt is a match. -/
theorem followsSearch_last {base first : Address} {start : ℕ}
    (hlast : tokens.getLast? = some t) (hp : HoldsText pattern p (patternText [t]))
    (hstop : p + t.text.length = (patternText tokens).length) (haccepts : t.accepts (mem current))
    (hfirst : (if firstMatch = 0 then current else firstMatch) = first)
    (hstart : first = base + BitVec.ofNat 64 start) :
    FollowsSearch base tokens (some start)
      (findPatternLoop mem pattern (n + 1) current firstMatch p) := by
  obtain ⟨chars, hchars, hrun⟩ := findPatternLoop_accepted hp haccepts
  rw [hrun, hfirst]
  cases t with
  | wildcard =>
    rw [FollowsSearch, if_pos ⟨hlast, by rintro ⟨⟩⟩]
    refine ⟨p + 2, List.mem_append_left _ List.mem_concat_self, ?_⟩
    rw [← hstop]
    exact Nat.lt_succ_self _
  | byte high low =>
    have hend : pattern (p + 2) = 0 := holdsText_last hp
    rw [FollowsSearch, if_neg (by rw [hlast]; rintro ⟨⟨⟩, _⟩), if_pos hend]
    refine ⟨hstart, ?_⟩
    rw [value_pure, log_pure, List.append_nil]
    exact forall_chars_le hchars hstop.le hstop.le

/-- Another token is accepted: the loop goes on behind it, and has not left the text. -/
theorem findPatternLoop_more {first : Address} {stop : ℕ} (hrest : rest ≠ [])
    (hp : HoldsText pattern p (patternText (t :: rest)))
    (hstop : p + (patternText (t :: rest)).length = stop) (haccepts : t.accepts (mem current))
    (hfirst : (if firstMatch = 0 then current else firstMatch) = first) :
    ∃ chars, (∀ c ∈ chars, c ≤ stop) ∧
      let run := findPatternLoop mem pattern n (current + 1) first (p + t.text.length + 1)
      findPatternLoop mem pattern (n + 1) current firstMatch p =
        ⟨run.value, chars ++ run.log⟩ := by
  obtain ⟨chars, hchars, hrun⟩ := findPatternLoop_accepted hp haccepts
  obtain ⟨hne, hwidth⟩ := next_of_more hrest hp
  have hpos := t.length_text_pos
  have hrestPos := List.length_pos_iff.2 (patternText_ne_nil hrest)
  rw [patternText_cons t hrest, List.length_append, List.length_cons] at hstop
  refine ⟨chars ++ [p + 2], forall_chars_le hchars (by omega) (by omega), ?_⟩
  rw [hrun, hfirst, if_neg hne, hwidth]

/-- The induction is over the bytes that are left, with the tokens that the attempt has still
to match. -/
theorem findPatternLoop_follows {base : Address} {start i : ℕ} (hbase : base ≠ 0)
    (hpattern : HoldsText pattern 0 (patternText tokens)) (htokens : tokens ≠ [])
    (hrest : rest ≠ []) (hsuffix : rest <:+ tokens)
    (hp : HoldsText pattern p (patternText rest))
    (hstop : p + (patternText rest).length = (patternText tokens).length)
    (hstart : start ≤ i)
    (hfirst : (if firstMatch = 0 then base + BitVec.ofNat 64 i else firstMatch) =
      base + BitVec.ofNat 64 start)
    (hfits : base.toNat + i + n < 2 ^ 64) :
    FollowsSearch base tokens
      (restartSearch PatternToken.accepts tokens (bytesFrom mem base) n rest start i)
      (findPatternLoop mem pattern n (base + BitVec.ofNat 64 i) firstMatch p) := by
  induction n generalizing rest p start i firstMatch with
  | zero =>
    rw [FollowsSearch, restartSearch, if_neg (fun h => h.2 rfl)]
    exact ⟨rfl, fun _ hi => absurd hi List.not_mem_nil⟩
  | succ n ih =>
    cases rest with
    | nil => exact absurd rfl hrest
    | cons t rest =>
      have hnext : base + BitVec.ofNat 64 i + 1 = base + BitVec.ofNat 64 (i + 1) := by
        rw [BitVec.add_assoc, BitVec.ofNat_add]
        rfl
      rw [restartSearch]
      split
      next haccepts =>
        split
        next hlast =>
          subst hlast
          have hgetLast : tokens.getLast? = some t := by
            obtain ⟨pre, rfl⟩ := hsuffix
            exact List.getLast?_concat
          rw [patternText_singleton] at hstop
          exact followsSearch_last hgetLast hp hstop haccepts hfirst rfl
        next hmore =>
          obtain ⟨chars, hchars, hrun⟩ := findPatternLoop_more hmore hp hstop haccepts hfirst
          rw [hrun, hnext]
          rw [patternText_cons t hmore, List.length_append, List.length_cons] at hstop
          have hnonzero : base + BitVec.ofNat 64 start ≠ 0 :=
            add_ofNat_ne_zero hbase (by omega)
          apply FollowsSearch.cons
          · exact ih hmore ((List.suffix_cons t rest).trans hsuffix) (holdsText_more hmore hp).2
              (by omega) (by omega) (if_neg hnonzero) (by omega)
          · exact hchars
      next hrefused =>
        obtain ⟨chars, hchars, hrun⟩ := findPatternLoop_refused hp hrefused
        rw [hrun, hnext]
        apply FollowsSearch.cons
        · exact ih htokens List.suffix_rfl hpattern (Nat.zero_add _) le_rfl (if_pos rfl) (by omega)
        · obtain ⟨more, hmore⟩ := exists_patternText t rest
          rw [hmore, List.length_append] at hstop
          intro c hc
          have hlt := hchars c hc
          omega

/-! ## Correctness of the search -/

/-- The whole pattern matches at an offset from the start of the range, inside of the range. -/
def PatternAt (mem : Arm64.Memory) (base : Address) (length : BitVec 64)
    (tokens : List PatternToken) (i : ℕ) : Prop :=
  Occurs PatternToken.accepts tokens (bytesFrom mem base) length.toNat i

/-- The lowest match is found, zero stands for no match, and the text is not left. -/
structure FindsPattern (mem : Arm64.Memory) (base : Address) (length : BitVec 64)
    (pattern : ℕ → BitVec 8) (tokens : List PatternToken) : Prop where
  lowest : ∀ i, IsLeast {i | PatternAt mem base length tokens i} i →
    (findPattern mem base length pattern).value = base + BitVec.ofNat 64 i
  zero : (findPattern mem base length pattern).value = 0 ↔
    ∀ i, ¬PatternAt mem base length tokens i
  reads : ∀ i ∈ (findPattern mem base length pattern).log, i ≤ (patternText tokens).length

variable {base : Address} {length : BitVec 64} {i : ℕ}

theorem findPattern_of_wrap (h : ¬base.toNat + length.toNat < 2 ^ 64) :
    findPattern mem base length pattern = pure 0 := by
  have hcount : (base + length).toNat - base.toNat = 0 := by
    rw [BitVec.toNat_add]
    have hbase := base.isLt
    have hlength := length.isLt
    omega
  rw [findPattern, hcount, findPatternLoop]

theorem findPattern_follows (mem : Arm64.Memory) (hbase : base ≠ 0) (htokens : tokens ≠ [])
    (hpattern : HoldsText pattern 0 (patternText tokens))
    (h : base.toNat + length.toNat < 2 ^ 64) :
    FollowsSearch base tokens
      (restartSearch PatternToken.accepts tokens (bytesFrom mem base) length.toNat tokens 0 0)
      (findPattern mem base length pattern) := by
  have hcount : (base + length).toNat - base.toNat = length.toNat := by
    rw [BitVec.toNat_add, Nat.mod_eq_of_lt h, Nat.add_sub_cancel_left]
  have hrun : FollowsSearch base tokens
      (restartSearch PatternToken.accepts tokens (bytesFrom mem base) length.toNat tokens 0 0)
      (findPatternLoop mem pattern length.toNat (base + BitVec.ofNat 64 0) 0 0) :=
    findPatternLoop_follows hbase hpattern htokens htokens List.suffix_rfl hpattern
      (Nat.zero_add _) le_rfl (if_pos rfl) h
  rw [BitVec.add_zero] at hrun
  rw [findPattern, hcount]
  exact hrun

theorem findsPattern_of_forall_not (hbase : base ≠ 0) (htokens : tokens ≠ [])
    (hpattern : HoldsText pattern 0 (patternText tokens))
    (hnone : ∀ i, ¬PatternAt mem base length tokens i) :
    FindsPattern mem base length pattern tokens := by
  have hrun : (findPattern mem base length pattern).value = 0 ∧
      ∀ i ∈ (findPattern mem base length pattern).log, i ≤ (patternText tokens).length := by
    by_cases h : base.toNat + length.toNat < 2 ^ 64
    · have hfollows := findPattern_follows mem hbase htokens hpattern h
      rw [restartSearch_eq_none htokens hnone, FollowsSearch, if_neg (fun hw => hw.2 rfl)]
        at hfollows
      exact hfollows
    · rw [findPattern_of_wrap h]
      exact ⟨rfl, fun _ hi => absurd hi List.not_mem_nil⟩
  exact ⟨fun i hi => absurd hi.1 (hnone i), iff_of_true hrun.1 hnone, hrun.2⟩

theorem PatternAt.address_ne_zero (hi : PatternAt mem base length tokens i) (hbase : base ≠ 0)
    (htokens : tokens ≠ []) (h : base.toNat + length.toNat < 2 ^ 64) :
    base + BitVec.ofNat 64 i ≠ 0 := by
  have hpos := List.length_pos_iff.2 htokens
  have hfits := hi.1
  exact add_ofNat_ne_zero hbase (by omega)

/-- Matches at different offsets have different addresses. -/
theorem PatternAt.address_inj {j : ℕ} (hi : PatternAt mem base length tokens i)
    (hj : PatternAt mem base length tokens j) (htokens : tokens ≠ [])
    (h : base + BitVec.ofNat 64 i = base + BitVec.ofNat 64 j) : i = j := by
  have hpos := List.length_pos_iff.2 htokens
  have hlength := length.isLt
  have hifits := hi.1
  have hjfits := hj.1
  have hnat := congrArg BitVec.toNat ((BitVec.add_right_inj base).1 h)
  rw [BitVec.toNat_ofNat, BitVec.toNat_ofNat, Nat.mod_eq_of_lt (by omega),
    Nat.mod_eq_of_lt (by omega)] at hnat
  exact hnat

/-- With a match, the search is right exactly when it hits the lowest one and the pattern does
not end in a question mark. -/
theorem findsPattern_of_isLeast_iff (hbase : base ≠ 0) (htokens : tokens ≠ [])
    (hpattern : HoldsText pattern 0 (patternText tokens))
    (hi : IsLeast {i | PatternAt mem base length tokens i} i) :
    FindsPattern mem base length pattern tokens ↔
      base.toNat + length.toNat < 2 ^ 64 ∧ tokens.getLast? ≠ some .wildcard ∧
        restartSearch PatternToken.accepts tokens (bytesFrom mem base) length.toNat tokens 0 0 =
          some i := by
  have hsome : ¬∀ i, ¬PatternAt mem base length tokens i := fun h => h i hi.1
  by_cases h : base.toNat + length.toNat < 2 ^ 64
  · have hfollows := findPattern_follows mem hbase htokens hpattern h
    have hzero : base + BitVec.ofNat 64 i ≠ 0 := hi.1.address_ne_zero hbase htokens h
    rw [and_iff_right h]
    constructor
    · intro hfinds
      have hvalue := hfinds.lowest i hi
      rw [FollowsSearch] at hfollows
      split at hfollows
      next hlast =>
        obtain ⟨c, hc, hlt⟩ := hfollows
        exact absurd (hfinds.reads c hc) (Nat.not_le.2 hlt)
      next hlast =>
        rw [hfollows.1] at hvalue
        cases hhit : restartSearch PatternToken.accepts tokens (bytesFrom mem base)
          length.toNat tokens 0 0 with
        | none =>
          rw [hhit] at hvalue
          exact absurd hvalue.symm hzero
        | some s =>
          rw [hhit] at hvalue hlast
          have hs : PatternAt mem base length tokens s := occurs_of_restartSearch htokens hhit
          refine ⟨fun hwild => hlast ⟨hwild, by rintro ⟨⟩⟩, ?_⟩
          rw [hs.address_inj hi.1 htokens hvalue]
    · rintro ⟨hwild, hhit⟩
      rw [FollowsSearch, if_neg (fun hlast => hwild hlast.1), hhit] at hfollows
      refine ⟨fun j hj => ?_, iff_of_false (fun hnull => hzero ?_) hsome, hfollows.2⟩
      · rw [hj.unique hi]
        exact hfollows.1
      · rw [← hnull]
        exact hfollows.1.symm
  · refine iff_of_false (fun hfinds => hsome (hfinds.zero.1 ?_)) (fun hright => h hright.1)
    rw [findPattern_of_wrap h]
    rfl

/-- The search is right exactly when there is no match, or the range ends before the address
space does, the pattern does not end in a question mark, and an attempt starts at the lowest
match. -/
theorem findsPattern_iff (mem : Arm64.Memory) (base : Address) (length : BitVec 64)
    (pattern : ℕ → BitVec 8) (tokens : List PatternToken) (hbase : base ≠ 0)
    (htokens : tokens ≠ []) (hpattern : HoldsText pattern 0 (patternText tokens)) :
    FindsPattern mem base length pattern tokens ↔
      ∀ i, IsLeast {i | PatternAt mem base length tokens i} i →
        base.toNat + length.toNat < 2 ^ 64 ∧ tokens.getLast? ≠ some .wildcard ∧
          i ∈ Set.range (attemptStart PatternToken.accepts tokens (bytesFrom mem base)) := by
  constructor
  · intro hfinds i hi
    rw [← restartSearch_eq_some_iff htokens hi]
    exact (findsPattern_of_isLeast_iff hbase htokens hpattern hi).1 hfinds
  · intro hright
    by_cases hnone : ∀ i, ¬PatternAt mem base length tokens i
    · exact findsPattern_of_forall_not hbase htokens hpattern hnone
    · classical
      rw [not_forall_not] at hnone
      have hi : IsLeast {i | PatternAt mem base length tokens i} (Nat.find hnone) :=
        ⟨Nat.find_spec hnone, fun _ h => Nat.find_min' hnone h⟩
      rw [findsPattern_of_isLeast_iff hbase htokens hpattern hi,
        restartSearch_eq_some_iff htokens hi]
      exact hright _ hi

/-- The pattern "28 10" and its buffer. -/
def twoBytes : List PatternToken :=
  [.byte ⟨2, false⟩ ⟨8, false⟩, .byte ⟨1, false⟩ ⟨0, false⟩]

def twoBytesBuffer (i : ℕ) : BitVec 8 := (patternText twoBytes).getD i 0

theorem findsPattern_twoBytes :
    FindsPattern (fun a => if a = 0x1001 then 0x10 else 0x28) 0x1000 2 twoBytesBuffer twoBytes := by
  refine (findsPattern_iff _ _ _ twoBytesBuffer twoBytes (by decide) (by decide)
    ⟨rfl, rfl, rfl, rfl, rfl, rfl⟩).2 ?_
  intro i hi
  have hzero : i = 0 := by
    apply hi.unique
    exact ⟨⟨by decide, by decide, by decide, trivial⟩, fun _ _ => Nat.zero_le _⟩
  exact ⟨by decide, by decide, 0, hzero.symm⟩

/-- In the bytes 28 28 10 the second 28 ends the first attempt, and the match there is missed. -/
theorem doubledByte_not_findsPattern :
    ¬∀ mem base length pattern tokens, base ≠ 0 → tokens ≠ [] →
      HoldsText pattern 0 (patternText tokens) →
        FindsPattern mem base length pattern tokens := by
  intro h
  have hfinds := h (fun a => if a = 0x1002 then 0x10 else 0x28) 0x1000 3 twoBytesBuffer twoBytes
    (by decide) (by decide) ⟨rfl, rfl, rfl, rfl, rfl, rfl⟩
  exact hfinds.zero.1 (by decide) 1 ⟨by decide, by decide, by decide, trivial⟩

end ProjectMu
