import ProjectMu.InetPton

/-!
# Reading an address of sixteen bytes

`inetPton6` goes over the characters once. A colon ends a group; a second one behind it leaves a
gap, and what follows is moved to the end of the address afterwards. At a dot the last group is
read again by `inetPton4`.
-/

namespace ProjectMu.InetPton

open ByteCodec DigitText AddressText CrtWrapper

def nsIn6addrsz : ℕ := 16
def nsInt16sz : ℕ := 2
def xdigitsL : List Byte := asciiName "0123456789abcdef"
def xdigitsU : List Byte := asciiName "0123456789ABCDEF"

/-- The local variables of `inetPton6`. `tmp` is the array up to `tp`, behind which it holds
zeros. -/
structure Scan6 where
  tmp : List Byte
  colonp : Option ℕ
  curtok : List Byte
  sawXdigit : Bool
  val : BitVec 64

/-- The two bytes of a group. -/
def Scan6.store (s : Scan6) : Option Scan6 :=
  if nsIn6addrsz < s.tmp.length + nsInt16sz then none
  else some { s with tmp := s.tmp ++ [(s.val >>> 8).setWidth 8, s.val.setWidth 8] }

def inetPton6Loop : List Byte → Scan6 → Option Scan6
  | [], s => some s
  | ch :: src, s =>
    match (strchr xdigitsL ch).or (strchr xdigitsU ch) with
    | some pch =>
      let val := s.val <<< 4 ||| BitVec.ofNat 64 pch
      if 0xFFFF < val then none
      else inetPton6Loop src { s with val := val, sawXdigit := true }
    | none =>
      if ch = colon then
        if s.sawXdigit then
          s.store.bind fun s =>
            inetPton6Loop src { s with curtok := src, sawXdigit := false, val := 0 }
        else if s.colonp.isSome then none
        else inetPton6Loop src { s with curtok := src, colonp := some s.tmp.length }
      else if ch = dot ∧ s.tmp.length + nsInaddrsz ≤ nsIn6addrsz then
        -- The terminating zero was seen by `inetPton4`.
        (inetPton4 s.curtok).map fun quad => { s with tmp := s.tmp ++ quad, sawXdigit := false }
      else none

/-- A pass of the loop that shifts by hand. `used` is where `tp` is. -/
def shiftPass (used : ℕ) (tmp : List Byte) (i : ℕ) : List Byte :=
  (tmp.set (nsIn6addrsz - i) (tmp.getD (used - i) 0)).set (used - i) 0

/-- What comes behind the loop. -/
def finish6 (s : Scan6) : Option (List Byte) :=
  (if s.sawXdigit then s.store else some s).bind fun s =>
    let tmp := s.tmp ++ List.replicate (nsIn6addrsz - s.tmp.length) 0
    match s.colonp with
    | some colonp =>
      some ((List.range' 1 (s.tmp.length - colonp)).foldl (shiftPass s.tmp.length) tmp)
    | none => if s.tmp.length = nsIn6addrsz then some tmp else none

/-- The first of two leading colons is left out, and a single one is refused. -/
def leadingColon : List Byte → Option (List Byte)
  | [] => some []
  | ch :: src =>
    if ch = colon then if src.head? = some colon then some src else none else some (ch :: src)

/-- What is copied to `dst`. -/
def inetPton6 (src : List Byte) : Option (List Byte) :=
  (leadingColon (cText src)).bind fun text =>
    (inetPton6Loop text ⟨[], none, text, false, 0⟩).bind finish6

theorem strchr_xdigits {ch : Byte} (h : ch ≠ 0) :
    (strchr xdigitsL ch).or (strchr xdigitsU ch) = hexDigit ch := by
  revert h
  revert ch
  decide +kernel

section Digits

variable {piece rest src : List Byte} {ch : Byte} {v w d : ℕ} {s : Scan6}

/-- The state behind a digit. -/
def Scan6.hex (s : Scan6) (v : ℕ) : Scan6 :=
  { s with sawXdigit := true, val := BitVec.ofNat 64 v }

theorem toNat_val_hex (s : Scan6) (hv : v ≤ 65535) : (s.hex v).val.toNat = v := by
  rw [Scan6.hex, BitVec.toNat_ofNat]
  omega

theorem hexDigit_lt (h : hexDigit ch = some d) : d < 16 := by
  unfold hexDigit at h
  split_ifs at h with hdecimal hlower hupper
  · have hhigh : ch.toNat ≤ 0x39 := hdecimal.2
    have hd := Option.some.inj h
    omega
  · have hhigh : ch.toNat ≤ 0x66 := hlower.2
    have hd := Option.some.inj h
    omega
  · have hhigh : ch.toNat ≤ 0x46 := hupper.2
    have hd := Option.some.inj h
    omega

theorem hexDigit_of_decimalDigit (h : decimalDigit ch = some d) : hexDigit ch = some d := by
  unfold decimalDigit at h
  split_ifs at h with hrange
  rw [hexDigit, if_pos hrange, h]

theorem toNat_append_digit {val : BitVec 64} (hval : val.toNat ≤ 65535) (hd : d < 16) :
    (val <<< 4 ||| BitVec.ofNat 64 d).toNat = val.toNat * 16 + d := by
  have hshift : (val <<< 4).toNat = val.toNat <<< 4 := by
    rw [BitVec.toNat_shiftLeft, Nat.shiftLeft_eq]
    omega
  have hdigit : (BitVec.ofNat 64 d).toNat = d := by
    rw [BitVec.toNat_ofNat]
    omega
  rw [BitVec.toNat_or, hshift, hdigit, ← Nat.shiftLeft_add_eq_or_of_lt hd, Nat.shiftLeft_eq]

/-- A digit of a group. -/
theorem loop_digit (hzero : ch ≠ 0) (hval : s.val.toNat ≤ 65535) (hd : hexDigit ch = some d) :
    inetPton6Loop (ch :: src) s =
      (appendDigit hexDigit 16 65535 s.val.toNat ch).bind fun v =>
        inetPton6Loop src (s.hex v) := by
  have hnew := toNat_append_digit hval (hexDigit_lt hd)
  have hbound : (0xFFFF : BitVec 64) < s.val <<< 4 ||| BitVec.ofNat 64 d ↔
      ¬s.val.toNat * 16 + d ≤ 65535 := by
    rw [BitVec.lt_def, hnew, not_le]
    rfl
  have hval : s.val <<< 4 ||| BitVec.ofNat 64 d = BitVec.ofNat 64 (s.val.toNat * 16 + d) := by
    rw [← hnew, BitVec.ofNat_toNat, BitVec.setWidth_eq]
  rw [inetPton6Loop, strchr_xdigits hzero, hd, appendDigit, hd]
  dsimp only
  rw [Option.bind_some]
  by_cases hle : s.val.toNat * 16 + d ≤ 65535
  · rw [if_neg (hbound.not.mpr (not_not.mpr hle)), if_pos hle, hval]
    rfl
  · rw [if_pos (hbound.mpr hle), if_neg hle]
    rfl

/-- The digits of a group that is not too large. -/
theorem loop_digits (hzero : 0 ∉ piece) (hv : v ≤ 65535)
    (h : readDigits hexDigit 16 65535 v piece = some w) :
    inetPton6Loop (piece ++ rest) (s.hex v) = inetPton6Loop rest (s.hex w) := by
  induction piece generalizing v with
  | nil => exact Option.some.inj h ▸ rfl
  | cons c piece ih =>
    rw [List.mem_cons, not_or] at hzero
    rw [readDigits_cons] at h
    obtain ⟨x, hx, hrest⟩ := Option.bind_eq_some_iff.mp h
    obtain ⟨d, hd, hle, rfl⟩ := appendDigit_eq_some_iff.mp hx
    rw [List.cons_append, loop_digit (Ne.symm hzero.1) ((toNat_val_hex s hv).trans_le hv) hd,
      toNat_val_hex s hv, hx]
    exact ih hzero.2 hle hrest

/-- The state at the first character of a group. -/
def fresh6 (tmp : List Byte) (colonp : Option ℕ) (text : List Byte) : Scan6 :=
  ⟨tmp, colonp, text, false, 0⟩

variable {tmp : List Byte} {colonp : Option ℕ} {text : List Byte}

theorem loop_fresh (hcolon : ch ≠ colon) :
    inetPton6Loop (ch :: src) (fresh6 tmp colonp text) =
      inetPton6Loop (ch :: src) ((fresh6 tmp colonp text).hex 0) := by
  rw [inetPton6Loop, inetPton6Loop]
  cases (strchr xdigitsL ch).or (strchr xdigitsU ch) with
  | none =>
    dsimp only
    rw [if_neg hcolon, if_neg hcolon]
    rfl
  | some d => rfl

theorem loop_group (hzero : 0 ∉ piece) (hcolon : colon ∉ piece) (h : group piece = some w) :
    inetPton6Loop (piece ++ rest) (fresh6 tmp colonp text) =
      inetPton6Loop rest ((fresh6 tmp colonp text).hex w) := by
  cases piece with
  | nil => cases h
  | cons c piece =>
    rw [List.cons_append, loop_fresh (fun hc => hcolon (hc ▸ List.mem_cons_self)),
      ← List.cons_append]
    exact loop_digits hzero (Nat.zero_le _) h

/-- A group that is none, and no address of four bytes either. -/
theorem loop_bad (hzero : 0 ∉ piece) (hcolon : colon ∉ piece) (hv : v ≤ 65535)
    (h : readDigits hexDigit 16 65535 v piece = none) (hquad : inetPton4 s.curtok = none) :
    inetPton6Loop (piece ++ rest) (s.hex v) = none := by
  induction piece generalizing v with
  | nil => cases h
  | cons c piece ih =>
    rw [List.mem_cons, not_or] at hzero hcolon
    rw [List.cons_append]
    cases hd : hexDigit c with
    | none =>
      have hstop : inetPton4 (s.hex v).curtok = none := hquad
      rw [inetPton6Loop, strchr_xdigits (Ne.symm hzero.1), hd]
      dsimp only
      rw [if_neg (Ne.symm hcolon.1), hstop]
      exact ite_self none
    | some d =>
      rw [loop_digit (Ne.symm hzero.1) ((toNat_val_hex s hv).trans_le hv) hd, toNat_val_hex s hv]
      rw [readDigits_cons] at h
      cases hx : appendDigit hexDigit 16 65535 v c with
      | none => rfl
      | some x =>
        obtain ⟨e, -, hle, rfl⟩ := appendDigit_eq_some_iff.mp hx
        rw [hx, Option.bind_some] at h
        exact ih hzero.2 hcolon.2 hle h

theorem loop_noGroup (hzero : 0 ∉ piece) (hcolon : colon ∉ piece) (hne : piece ≠ [])
    (h : group piece = none) (hquad : inetPton4 text = none) :
    inetPton6Loop (piece ++ rest) (fresh6 tmp colonp text) = none := by
  cases piece with
  | nil => exact absurd rfl hne
  | cons c piece =>
    rw [List.cons_append, loop_fresh (fun hc => hcolon (hc ▸ List.mem_cons_self)),
      ← List.cons_append]
    exact loop_bad hzero hcolon (Nat.zero_le _) h hquad

/-- The digits of a number of one byte are those of a group as well. -/
theorem readDigits_hex_of_decimal {n : ℕ} (hw : w ≤ v ^ 2)
    (h : readDigits decimalDigit 10 255 v piece = some n) :
    ∃ m, readDigits hexDigit 16 65535 w piece = some m := by
  induction piece generalizing v w with
  | nil => exact ⟨w, rfl⟩
  | cons c piece ih =>
    rw [readDigits_cons] at h
    obtain ⟨x, hx, hrest⟩ := Option.bind_eq_some_iff.mp h
    obtain ⟨d, hd, hle, rfl⟩ := appendDigit_eq_some_iff.mp hx
    -- Digits of base sixteen count more, but no more than the square of the number.
    have hsquare : w * 16 + d ≤ (v * 10 + d) ^ 2 := by
      nlinarith [Nat.zero_le (v * d), Nat.le_self_pow (n := 2) (by decide) d]
    have hbound : w * 16 + d ≤ 65535 :=
      (hsquare.trans (Nat.pow_le_pow_left hle 2)).trans (by decide)
    obtain ⟨m, hm⟩ := ih hsquare hrest
    refine ⟨m, ?_⟩
    rw [readDigits_cons, appendDigit_eq_some_iff.mpr
      ⟨d, hexDigit_of_decimalDigit hd, hbound, rfl⟩]
    exact hm

end Digits

section Quads

variable {text q : List Byte} {s : Scan6}

theorem decimalDigit_of_octet {piece : List Byte} {n : ℕ} (h : octet piece = some n) :
    ∀ c ∈ piece, ∃ d, decimalDigit c = some d := by
  obtain ⟨-, ds, hds, -⟩ := (number_eq_some_iff (by decide)).mp h
  exact exists_of_mapM hds

/-- The first number of an address of four bytes, and a dot behind it. -/
theorem exists_octet_of_dottedQuad (h : dottedQuad text = some q) :
    ∃ first more n, text = first ++ dot :: more ∧ octet first = some n := by
  unfold dottedQuad at h
  obtain ⟨ns, hns, hlength⟩ := Option.bind_eq_some_iff.mp h
  split_ifs at hlength with hfour
  have htext : [dot].intercalate (text.splitOn dot) = text := List.intercalate_splitOn dot
  cases hpieces : text.splitOn dot with
  | nil => exact absurd hpieces (List.splitOn_ne_nil _ _)
  | cons first pieces =>
    rw [hpieces] at hns htext
    obtain ⟨n, hn, rest, hrest, rfl⟩ := (mapM_cons_eq_some_iff _ _ _).mp hns
    cases pieces with
    | nil =>
      obtain rfl := Option.some.inj hrest
      simp at hfour
    | cons second pieces =>
      rw [List.intercalate_cons_cons, List.append_assoc] at htext
      exact ⟨first, _, n, htext.symm, hn⟩

theorem dottedQuad_characters (h : dottedQuad text = some q) :
    ∀ c ∈ text, c = dot ∨ ∃ d, decimalDigit c = some d := by
  unfold dottedQuad at h
  obtain ⟨ns, hns, -⟩ := Option.bind_eq_some_iff.mp h
  have htext : [dot].intercalate (text.splitOn dot) = text := List.intercalate_splitOn dot
  intro c hc
  rw [← htext] at hc
  apply Or.imp_right _ (mem_intercalate hc)
  rintro ⟨p, hp, hcp⟩
  obtain ⟨n, hn⟩ := exists_of_mapM hns p hp
  exact decimalDigit_of_octet hn c hcp

theorem dottedQuad_length (h : dottedQuad text = some q) : q.length = 4 := by
  unfold dottedQuad at h
  obtain ⟨ns, -, hlength⟩ := Option.bind_eq_some_iff.mp h
  split_ifs at hlength with hfour
  rw [← Option.some.inj hlength, List.length_map, hfour]

theorem cText_eq (h : 0 ∉ text) : cText text = text := by
  unfold cText
  rw [List.takeWhile_eq_self_iff]
  intro c hc
  exact decide_eq_true fun hzero => h (hzero ▸ hc)

theorem hexDigit_colon : hexDigit colon = none := by decide
theorem hexDigit_dot : hexDigit dot = none := by decide

theorem colon_notMem_dottedQuad (h : dottedQuad text = some q) : colon ∉ text := by
  intro hmem
  rcases dottedQuad_characters h colon hmem with hdot | ⟨d, hd⟩
  · exact absurd hdot (by decide)
  · cases (hexDigit_of_decimalDigit hd).symm.trans hexDigit_colon

theorem zero_notMem_dottedQuad (h : dottedQuad text = some q) : 0 ∉ text := by
  intro hmem
  rcases dottedQuad_characters h 0 hmem with hdot | ⟨d, hd⟩
  · exact absurd hdot (by decide)
  · cases hd

/-- A group with a dot in it is none. -/
theorem group_dottedQuad (h : dottedQuad text = some q) : group text = none := by
  obtain ⟨first, more, n, rfl, -⟩ := exists_octet_of_dottedQuad h
  by_contra hgroup
  obtain ⟨w, hw⟩ := Option.ne_none_iff_exists'.mp hgroup
  obtain ⟨-, ds, hds, -⟩ := (number_eq_some_iff (by decide)).mp hw
  obtain ⟨d, hd⟩ := exists_of_mapM hds dot (by simp)
  cases hd.symm.trans hexDigit_dot

/-- An address of four bytes at the end. -/
theorem loop_quad (hzero : 0 ∉ text) (h : dottedQuad text = some q) {tmp : List Byte}
    {colonp : Option ℕ} :
    (inetPton6Loop text (fresh6 tmp colonp text)).bind finish6 =
      if tmp.length + 4 ≤ 16 then finish6 (fresh6 (tmp ++ q) colonp text) else none := by
  have hread := (inetPton4_eq text).trans ((cText_eq hzero).symm ▸ h)
  obtain ⟨first, more, n, rfl, hn⟩ := exists_octet_of_dottedQuad h
  have hcolon : colon ∉ first := fun hc =>
    colon_notMem_dottedQuad h (List.mem_append_left _ hc)
  have hzeroFirst : 0 ∉ first := fun hc => hzero (List.mem_append_left _ hc)
  cases first with
  | nil => cases hn
  | cons c first =>
    obtain ⟨m, hm⟩ := @readDigits_hex_of_decimal _ 0 0 _ (Nat.zero_le _) hn
    have hdot : dot ≠ 0 := by decide
    have hnotColon : dot ≠ colon := by decide
    have hcurtok : inetPton4 ((fresh6 tmp colonp (c :: first ++ dot :: more)).hex m).curtok =
        some q := hread
    rw [loop_group hzeroFirst hcolon hm, inetPton6Loop, strchr_xdigits hdot, hexDigit_dot]
    dsimp only
    rw [if_neg hnotColon, hcurtok]
    change (if dot = dot ∧ tmp.length + 4 ≤ 16 then _ else none : Option Scan6).bind finish6 = _
    by_cases hroom : tmp.length + 4 ≤ 16
    · rw [if_pos ⟨rfl, hroom⟩, if_pos hroom]
      rfl
    · rw [if_neg (fun h => hroom h.2), if_neg hroom]
      rfl

end Quads

section Shift

variable {front back rest : List Byte} {used : ℕ}

/-- One character is moved over the zeros behind it. -/
theorem shiftPass_gap (a : List Byte) (x : Byte) (g : ℕ) (b : List Byte) {i : ℕ}
    (hused : used = a.length + i) (hend : a.length + i + (g + 1) = nsIn6addrsz) :
    shiftPass used (a ++ x :: (List.replicate (g + 1) 0 ++ b)) i =
      a ++ List.replicate (g + 1) 0 ++ x :: b := by
  have hfrom : used - i = a.length := by omega
  have hto : nsIn6addrsz - i = a.length + (g + 1) := by omega
  rw [shiftPass, hfrom, hto, List.replicate_succ', List.append_assoc]
  have hzeros : (0 : Byte) :: (List.replicate g 0 ++ x :: b) =
      List.replicate g 0 ++ 0 :: x :: b := by
    rw [← List.cons_append, ← List.replicate_succ, List.replicate_succ', List.append_assoc]
    rfl
  simpa [List.set_append_right] using hzeros

/-- Without zeros behind it the character is cleared after it was moved to where it is. -/
theorem shiftPass_full (a : List Byte) (x : Byte) (b : List Byte) {i : ℕ}
    (hused : used = a.length + i) (hend : a.length + i = nsIn6addrsz) :
    shiftPass used (a ++ x :: b) i = a ++ 0 :: b := by
  have hfrom : used - i = a.length := by omega
  have hto : nsIn6addrsz - i = a.length := by omega
  rw [shiftPass, hfrom, hto]
  simp

/-- The passes take the characters from the last one on. `moved` is at its place already. -/
theorem foldl_shiftPass_gap (g : ℕ) {k : ℕ} {moved : List Byte} (hmoved : moved.length = k)
    (hused : used = front.length + back.length + k) (hend : used + (g + 1) = nsIn6addrsz) :
    (List.range' (k + 1) back.length).foldl (shiftPass used)
        (front ++ back ++ List.replicate (g + 1) 0 ++ moved) =
      front ++ List.replicate (g + 1) 0 ++ (back ++ moved) := by
  induction back using List.reverseRecOn generalizing k moved with
  | nil => simp
  | append_singleton back x ih =>
    rw [List.length_append, List.length_singleton] at hused
    rw [List.length_append, List.length_singleton, List.range'_succ, List.foldl_cons]
    have hpass := @shiftPass_gap used (front ++ back) x g moved (k + 1)
      (by rw [List.length_append]; omega) (by rw [List.length_append]; omega)
    have hbuffer : front ++ (back ++ [x]) ++ List.replicate (g + 1) 0 ++ moved =
        front ++ back ++ x :: (List.replicate (g + 1) 0 ++ moved) := by simp
    rw [hbuffer, hpass, @ih (k + 1) (x :: moved) (by rw [List.length_cons, hmoved])
      (by omega)]
    simp

theorem foldl_shiftPass_full {k : ℕ} {moved : List Byte} (hmoved : moved.length = k)
    (hused : used = front.length + back.length + k) (hend : used = nsIn6addrsz) :
    (List.range' (k + 1) back.length).foldl (shiftPass used) (front ++ back ++ moved) =
      front ++ List.replicate back.length 0 ++ moved := by
  induction back using List.reverseRecOn generalizing k moved with
  | nil => simp
  | append_singleton back x ih =>
    rw [List.length_append, List.length_singleton] at hused
    rw [List.length_append, List.length_singleton, List.range'_succ, List.foldl_cons]
    have hpass := @shiftPass_full used (front ++ back) x moved (k + 1)
      (by rw [List.length_append]; omega) (by rw [List.length_append]; omega)
    have hbuffer : front ++ (back ++ [x]) ++ moved = front ++ back ++ x :: moved := by simp
    rw [hbuffer, hpass, @ih (k + 1) (0 :: moved) (by rw [List.length_cons, hmoved])
      (by omega), List.replicate_succ']
    simp

/-- The address with a gap. Where there is no room for one the groups behind it are cleared. -/
def placed (front back : List Byte) : List Byte :=
  if front.length + back.length = nsIn6addrsz then
    front ++ List.replicate (nsIn6addrsz - front.length) 0
  else spread front back

theorem finish6_gap (hroom : front.length + back.length ≤ nsIn6addrsz) (text : List Byte) :
    finish6 (fresh6 (front ++ back) (some front.length) text) = some (placed front back) := by
  have hlength : (front ++ back).length - front.length = back.length := by
    rw [List.length_append, Nat.add_sub_cancel_left]
  change some ((List.range' 1 ((front ++ back).length - front.length)).foldl
    (shiftPass (front ++ back).length)
    (front ++ back ++ List.replicate (nsIn6addrsz - (front ++ back).length) 0)) = _
  rw [hlength, placed, List.length_append]
  congr 1
  split_ifs with hfull
  · have hshift := @foldl_shiftPass_full front back _ 0 [] rfl rfl hfull
    rw [List.append_nil, List.append_nil] at hshift
    rw [hfull, Nat.sub_self, List.replicate_zero, List.append_nil, ← hfull,
      Nat.add_sub_cancel_left]
    exact hshift
  · obtain ⟨g, hg⟩ : ∃ g, nsIn6addrsz - (front.length + back.length) = g + 1 :=
      ⟨nsIn6addrsz - (front.length + back.length) - 1, by omega⟩
    have hshift := @foldl_shiftPass_gap front back _ g 0 [] rfl rfl (by omega)
    rw [List.append_nil, List.append_nil] at hshift
    have hzeros : 16 - front.length - back.length = g + 1 := by
      rw [Nat.sub_sub]
      exact hg
    rw [hg, spread, hzeros]
    exact hshift

end Shift

section Pieces

/-- The bytes of groups as the code takes them: there can be a colon behind them. -/
def looseGroups : List (List Byte) → Option (List Byte)
  | [] => none
  | [p] => if p = [] then some [] else ((group p).map groupBytes).or (dottedQuad p)
  | p :: ps => (group p).bind fun w => (looseGroups ps).map (groupBytes w ++ ·)

/-- The address that the pieces between colons give behind the bytes of `front`. -/
def address (front : List Byte) : List (List Byte) → Option (List Byte)
  | [] => none
  | [p] => (looseGroups [p]).bind fun more =>
    if (front ++ more).length = nsIn6addrsz then some (front ++ more) else none
  | p :: ps =>
    if p = [] then
      (looseGroups ps).bind fun back =>
        if front.length + back.length ≤ nsIn6addrsz then some (placed front back) else none
    else
      (group p).bind fun w =>
        if front.length + nsInt16sz ≤ nsIn6addrsz then address (front ++ groupBytes w) ps else none

variable {tmp front back text p q : List Byte} {ps : List (List Byte)} {colonp : Option ℕ}

theorem store_hex {w : ℕ} (hw : w ≤ 65535) :
    ((fresh6 tmp colonp text).hex w).store =
      if tmp.length + nsInt16sz ≤ nsIn6addrsz then
        some ((fresh6 (tmp ++ groupBytes w) colonp text).hex w)
      else none := by
  have hval : (BitVec.ofNat 64 w).toNat = w := by
    rw [BitVec.toNat_ofNat]
    omega
  have hhigh : (BitVec.ofNat 64 w >>> 8).setWidth 8 = BitVec.ofNat 8 (w / 256) := by
    apply BitVec.eq_of_toNat_eq
    rw [BitVec.toNat_setWidth, BitVec.toNat_ushiftRight, hval, BitVec.toNat_ofNat,
      Nat.shiftRight_eq_div_pow]
  have hlow : (BitVec.ofNat 64 w).setWidth 8 = BitVec.ofNat 8 w := by
    apply BitVec.eq_of_toNat_eq
    rw [BitVec.toNat_setWidth, hval, BitVec.toNat_ofNat]
  change (if nsIn6addrsz < tmp.length + nsInt16sz then none else _) = _
  by_cases hroom : tmp.length + nsInt16sz ≤ nsIn6addrsz
  · rw [if_neg (not_lt.mpr hroom), if_pos hroom]
    simp only [Scan6.hex, fresh6, hhigh, hlow, groupBytes]
  · rw [if_pos (not_le.mp hroom), if_neg hroom]

theorem inetPton4_of_colon (hzero : 0 ∉ text) (hcolon : colon ∈ text) : inetPton4 text = none := by
  rw [inetPton4_eq, cText_eq hzero]
  by_contra hquad
  obtain ⟨q, hq⟩ := Option.ne_none_iff_exists'.mp hquad
  exact colon_notMem_dottedQuad hq hcolon

/-- A group with a colon behind it. -/
theorem loop_group_colon {rest : List Byte} (hzero : 0 ∉ p ++ colon :: rest) (hcolon : colon ∉ p)
    (hne : p ≠ []) :
    inetPton6Loop (p ++ colon :: rest) (fresh6 tmp colonp (p ++ colon :: rest)) =
      (group p).bind fun w =>
        if tmp.length + nsInt16sz ≤ nsIn6addrsz then
          inetPton6Loop rest (fresh6 (tmp ++ groupBytes w) colonp rest)
        else none := by
  have hzeroPiece : 0 ∉ p := fun h => hzero (List.mem_append_left _ h)
  cases hgroup : group p with
  | none =>
    apply loop_noGroup hzeroPiece hcolon hne hgroup
    exact inetPton4_of_colon hzero (List.mem_append_right _ List.mem_cons_self)
  | some w =>
    have hcolonZero : colon ≠ 0 := by decide
    have hsaw : ((fresh6 tmp colonp (p ++ colon :: rest)).hex w).sawXdigit = true := rfl
    rw [loop_group hzeroPiece hcolon hgroup, inetPton6Loop, strchr_xdigits hcolonZero,
      hexDigit_colon]
    dsimp only
    rw [if_pos rfl, if_pos hsaw, store_hex (number_le hgroup), Option.bind_some]
    split_ifs <;> rfl

/-- A colon in front of which there is no group. -/
theorem loop_colon {rest : List Byte} :
    inetPton6Loop (colon :: rest) (fresh6 tmp colonp text) =
      if colonp.isSome then none else inetPton6Loop rest (fresh6 tmp (some tmp.length) rest) := by
  have hcolonZero : colon ≠ 0 := by decide
  rw [inetPton6Loop, strchr_xdigits hcolonZero, hexDigit_colon]
  rfl

/-- The last piece. -/
theorem loop_last (hzero : 0 ∉ p) (hcolon : colon ∉ p) (htmp : tmp.length ≤ nsIn6addrsz) :
    (inetPton6Loop p (fresh6 tmp colonp p)).bind finish6 =
      (looseGroups [p]).bind fun more =>
        if tmp.length + more.length ≤ nsIn6addrsz then finish6 (fresh6 (tmp ++ more) colonp p)
        else none := by
  rw [looseGroups]
  by_cases hnil : p = []
  · subst hnil
    rw [if_pos rfl, Option.bind_some, List.length_nil, Nat.add_zero, if_pos htmp, List.append_nil]
    rfl
  · rw [if_neg hnil]
    cases hgroup : group p with
    | some w =>
      have hloop := @loop_group p [] w tmp colonp p hzero hcolon hgroup
      rw [List.append_nil] at hloop
      rw [hloop]
      change (((fresh6 tmp colonp p).hex w).store).bind _ = _
      rw [store_hex (number_le hgroup)]
      change _ = if tmp.length + nsInt16sz ≤ nsIn6addrsz then _ else _
      split_ifs <;> rfl
    | none =>
      rw [Option.map_none, Option.none_or]
      cases hquad : dottedQuad p with
      | some q =>
        rw [loop_quad hzero hquad, Option.bind_some, dottedQuad_length hquad]
        rfl
      | none =>
        have hread : inetPton4 p = none := by rw [inetPton4_eq, cText_eq hzero, hquad]
        have hloop := @loop_noGroup p [] tmp colonp p hzero hcolon hnil hgroup hread
        rw [List.append_nil] at hloop
        rw [hloop]
        rfl

theorem length_groupBytes (w : ℕ) : (groupBytes w).length = nsInt16sz := rfl

theorem joined_cons (hps : ps ≠ []) : joined (p :: ps) = p ++ colon :: joined ps := by
  rw [joined, List.intercalate_cons_of_ne_nil hps, List.append_assoc]
  rfl

/-- Behind the gap. -/
theorem loop_behind (hps : ps ≠ []) (hzero : 0 ∉ joined ps) (hcolon : ∀ p ∈ ps, colon ∉ p)
    (hroom : front.length + back.length ≤ nsIn6addrsz) :
    (inetPton6Loop (joined ps) (fresh6 (front ++ back) (some front.length) (joined ps))).bind
        finish6 =
      (looseGroups ps).bind fun more =>
        if front.length + (back ++ more).length ≤ nsIn6addrsz then some (placed front (back ++ more))
        else none := by
  induction ps generalizing back with
  | nil => exact absurd rfl hps
  | cons p ps ih =>
    rw [List.forall_mem_cons] at hcolon
    cases ps with
    | nil =>
      have hjoined : joined [p] = p := List.intercalate_singleton
      rw [hjoined] at hzero ⊢
      rw [loop_last hzero hcolon.1 (by rw [List.length_append]; exact hroom)]
      congr 1
      funext more
      rw [List.length_append, List.length_append, Nat.add_assoc]
      split_ifs with hmore
      · rw [List.append_assoc]
        exact finish6_gap (by rw [List.length_append]; exact hmore) p
      · rfl
    | cons p' ps =>
      rw [joined_cons (List.cons_ne_nil _ _)] at hzero ⊢
      have hzeroRest : 0 ∉ joined (p' :: ps) := fun h =>
        hzero (List.mem_append_right _ (List.mem_cons_of_mem _ h))
      by_cases hnil : p = []
      · subst hnil
        rw [List.nil_append, loop_colon]
        rfl
      · rw [loop_group_colon hzero hcolon.1 hnil, looseGroups]
        · cases group p with
          | none => rfl
          | some w =>
            rw [Option.bind_some, Option.bind_some]
            split_ifs with hword
            · have hroom' : front.length + (back ++ groupBytes w).length ≤ nsIn6addrsz := by
                rw [List.length_append, length_groupBytes]
                rw [List.length_append] at hword
                omega
              have hrest := ih (List.cons_ne_nil _ _) hzeroRest hcolon.2 hroom'
              rw [List.append_assoc, hrest, Option.bind_map]
              simp only [Function.comp_def, List.append_assoc]
            · cases looseGroups (p' :: ps) with
              | none => rfl
              | some more =>
                rw [Option.map_some, Option.bind_some, if_neg]
                · rfl
                · rw [List.length_append, List.length_append, length_groupBytes]
                  rw [List.length_append] at hword
                  omega
        · exact List.cons_ne_nil _ _

theorem finish6_full :
    finish6 (fresh6 tmp none text) = if tmp.length = nsIn6addrsz then some tmp else none := by
  change (if tmp.length = nsIn6addrsz then
    some (tmp ++ List.replicate (nsIn6addrsz - tmp.length) 0) else none) = _
  split_ifs with hlength
  · rw [hlength, Nat.sub_self, List.replicate_zero, List.append_nil]
  · rfl

/-- In front of the gap, if there is one. -/
theorem loop_front (hps : ps ≠ []) (hzero : 0 ∉ joined ps) (hcolon : ∀ p ∈ ps, colon ∉ p)
    (hroom : front.length ≤ nsIn6addrsz) :
    (inetPton6Loop (joined ps) (fresh6 front none (joined ps))).bind finish6 = address front ps := by
  induction ps generalizing front with
  | nil => exact absurd rfl hps
  | cons p ps ih =>
    rw [List.forall_mem_cons] at hcolon
    cases ps with
    | nil =>
      have hjoined : joined [p] = p := List.intercalate_singleton
      rw [hjoined] at hzero ⊢
      rw [loop_last hzero hcolon.1 hroom, address]
      congr 1
      funext more
      rw [finish6_full, List.length_append]
      by_cases hmore : front.length + more.length ≤ nsIn6addrsz
      · rw [if_pos hmore]
      · rw [if_neg hmore, if_neg (by omega)]
    | cons p' ps =>
      rw [joined_cons (List.cons_ne_nil _ _)] at hzero ⊢
      have hzeroRest : 0 ∉ joined (p' :: ps) := fun h =>
        hzero (List.mem_append_right _ (List.mem_cons_of_mem _ h))
      rw [address]
      · by_cases hnil : p = []
        · subst hnil
          have hbehind := @loop_behind front [] (p' :: ps) (List.cons_ne_nil _ _) hzeroRest
            hcolon.2 hroom
          rw [List.append_nil] at hbehind
          rw [List.nil_append, loop_colon, if_pos rfl]
          exact hbehind
        · rw [loop_group_colon hzero hcolon.1 hnil, if_neg hnil, Option.bind_assoc]
          congr 1
          funext w
          split_ifs with hword
          · exact ih (List.cons_ne_nil _ _) hzeroRest hcolon.2
              (by rw [List.length_append, length_groupBytes]; exact hword)
          · rfl
      · exact List.cons_ne_nil _ _

end Pieces

theorem leadingColon_subset {src text : List Byte} (h : leadingColon src = some text) :
    text ⊆ src := by
  cases src with
  | nil => exact Option.some.inj h ▸ List.Subset.refl _
  | cons c src =>
    rw [leadingColon] at h
    split_ifs at h
    · exact Option.some.inj h ▸ List.subset_cons_self c src
    · exact Option.some.inj h ▸ List.Subset.refl _

/-- `inetPton6` goes by the pieces between the colons. -/
theorem inetPton6_eq (src : List Byte) :
    inetPton6 src = (leadingColon (cText src)).bind fun text => address [] (text.splitOn colon) := by
  unfold inetPton6
  cases htext : leadingColon (cText src) with
  | none => rfl
  | some text =>
    have hzero : 0 ∉ text := fun h => zero_notMem_cText src (leadingColon_subset htext h)
    have hjoined : joined (text.splitOn colon) = text := List.intercalate_splitOn colon
    have hfront := @loop_front [] (text.splitOn colon) (List.splitOn_ne_nil _ _)
      (hjoined.symm ▸ hzero) (fun p hp => (of_mem_splitOn hp).1) (Nat.zero_le _)
    rw [hjoined] at hfront
    exact hfront

end ProjectMu.InetPton
