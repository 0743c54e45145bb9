import ProjectMu.AddressText
import ProjectMu.CrtString

/-!
# Reading an address of four bytes

`inetPton4` goes over the characters once. It counts the numbers at their first digit and starts
the next byte at a dot.
-/

namespace ProjectMu.InetPton

open ByteCodec DigitText AddressText CrtWrapper

def nsInaddrsz : ℕ := 4
def digits : List Byte := asciiName "0123456789"

/-- The local variables of `inetPton4`. `front` is `tmp` up to `tp`, and `current` what `tp` points
to. -/
structure Scan4 where
  sawDigit : Bool
  octets : ℕ
  front : List Byte
  current : Byte
  deriving DecidableEq

def inetPton4Step (s : Scan4) (ch : Byte) : Option Scan4 :=
  match strchr digits ch with
  | some pch =>
    let new := s.current.setWidth 64 * 10 + BitVec.ofNat 64 pch
    if 255 < new then none
    else
      let s := { s with current := new.setWidth 8 }
      if s.sawDigit then some s
      else if 4 < s.octets + 1 then none
      else some { s with octets := s.octets + 1, sawDigit := true }
  | none =>
    if ch = dot ∧ s.sawDigit then
      if s.octets = 4 then none
      else some { s with front := s.front ++ [s.current], current := 0, sawDigit := false }
    else none

/-- What is copied to `dst`. -/
def inetPton4 (src : List Byte) : Option (List Byte) :=
  ((cText src).foldlM inetPton4Step ⟨false, 0, [], 0⟩).bind fun s =>
    if s.octets < 4 then none else some (s.front ++ [s.current])

theorem strchr_digits {ch : Byte} (h : ch ≠ 0) : strchr digits ch = decimalDigit ch := by
  revert h
  revert ch
  decide +kernel

/-- The end of the loop. -/
def finish4 (s : Scan4) : Option (List Byte) :=
  if s.octets < 4 then none else some (s.front ++ [s.current])

section Pieces

variable {piece : List Byte} {ch : Byte} {v : ℕ}

/-- The state behind a digit. -/
def Scan4.digit (s : Scan4) (v : ℕ) : Scan4 where
  sawDigit := true
  octets := if s.sawDigit then s.octets else s.octets + 1
  front := s.front
  current := BitVec.ofNat 8 v

theorem toNat_current_digit (s : Scan4) (hv : v ≤ 255) : (s.digit v).current.toNat = v := by
  rw [Scan4.digit, BitVec.toNat_ofNat]
  omega

theorem decimalDigit_lt {d : ℕ} (h : decimalDigit ch = some d) : d < 10 := by
  unfold decimalDigit at h
  split_ifs at h with hrange
  have hhigh : ch.toNat ≤ 0x39 := hrange.2
  have hd := Option.some.inj h
  omega

theorem inetPton4Step_eq (hzero : ch ≠ 0) (hdot : ch ≠ dot) {s : Scan4}
    (hoctets : s.sawDigit = true ∨ s.octets < 4) :
    inetPton4Step s ch =
      (appendDigit decimalDigit 10 255 s.current.toNat ch).map s.digit := by
  unfold inetPton4Step appendDigit
  rw [strchr_digits hzero]
  cases hd : decimalDigit ch with
  | none =>
    dsimp only
    rw [if_neg (fun h => hdot h.1)]
    rfl
  | some d =>
    have hd10 := decimalDigit_lt hd
    have hcurrent := s.current.isLt
    have hnew : (s.current.setWidth 64 * 10 + BitVec.ofNat 64 d : BitVec 64).toNat =
        s.current.toNat * 10 + d := by
      rw [BitVec.toNat_add, BitVec.toNat_mul, BitVec.toNat_setWidth, BitVec.toNat_ofNat]
      change (s.current.toNat % 2 ^ 64 * 10 % 2 ^ 64 + d % 2 ^ 64) % 2 ^ 64 = _
      omega
    have hbound : (255 : BitVec 64) < s.current.setWidth 64 * 10 + BitVec.ofNat 64 d ↔
        ¬s.current.toNat * 10 + d ≤ 255 := by
      rw [BitVec.lt_def, hnew, not_le]
      rfl
    have hbyte : (s.current.setWidth 64 * 10 + BitVec.ofNat 64 d : BitVec 64).setWidth 8 =
        BitVec.ofNat 8 (s.current.toNat * 10 + d) := by
      apply BitVec.eq_of_toNat_eq
      rw [BitVec.toNat_setWidth, hnew, BitVec.toNat_ofNat]
    simp only [hbound, hbyte, Option.bind_some]
    by_cases hle : s.current.toNat * 10 + d ≤ 255
    · rw [if_neg (not_not.mpr hle), if_pos hle, Option.map_some, Scan4.digit]
      by_cases hsaw : s.sawDigit = true
      · simp [hsaw]
      · have hroom : ¬4 < s.octets + 1 := by
          have hless := hoctets.resolve_left hsaw
          omega
        simp [hsaw, hroom]
    · rw [if_pos hle, if_neg hle]
      rfl

theorem foldlM_digit (hzero : 0 ∉ piece) (hdot : dot ∉ piece) (s : Scan4) (hv : v ≤ 255) :
    piece.foldlM inetPton4Step (s.digit v) =
      (readDigits decimalDigit 10 255 v piece).map s.digit := by
  induction piece generalizing v with
  | nil => rfl
  | cons c piece ih =>
    rw [List.mem_cons, not_or] at hzero hdot
    rw [List.foldlM_cons, inetPton4Step_eq (Ne.symm hzero.1) (Ne.symm hdot.1) (Or.inl rfl),
      toNat_current_digit s hv, readDigits_cons]
    cases hw : appendDigit decimalDigit 10 255 v c with
    | none => rfl
    | some w =>
      obtain ⟨d, -, hle, rfl⟩ := appendDigit_eq_some_iff.mp hw
      exact ih hzero.2 hdot.2 hle

/-- The state in front of a number. -/
def fresh4 (front : List Byte) : Scan4 := ⟨false, front.length, front, 0⟩

theorem foldlM_octet (hzero : 0 ∉ piece) (hdot : dot ∉ piece) (hne : piece ≠ [])
    {front : List Byte} (hroom : front.length < 4) :
    piece.foldlM inetPton4Step (fresh4 front) = (octet piece).map (fresh4 front).digit := by
  cases piece with
  | nil => exact absurd rfl hne
  | cons c piece =>
    rw [List.mem_cons, not_or] at hzero hdot
    rw [List.foldlM_cons, inetPton4Step_eq (Ne.symm hzero.1) (Ne.symm hdot.1) (Or.inr hroom), octet,
      number_cons, readDigits_cons]
    change (Option.map _ (appendDigit decimalDigit 10 255 0 c)).bind _ = _
    cases hw : appendDigit decimalDigit 10 255 0 c with
    | none => rfl
    | some w =>
      obtain ⟨d, -, hle, rfl⟩ := appendDigit_eq_some_iff.mp hw
      exact foldlM_digit hzero.2 hdot.2 (fresh4 front) hle

end Pieces

/-- A dot behind a number. -/
theorem inetPton4Step_dot (front : List Byte) (v : ℕ) :
    inetPton4Step ((fresh4 front).digit v) dot =
      if front.length + 1 = 4 then none else some (fresh4 (front ++ [BitVec.ofNat 8 v])) := by
  have hchr : strchr digits dot = none := by decide
  unfold inetPton4Step
  rw [hchr]
  simp [Scan4.digit, fresh4]

section Numbers

variable {piece front : List Byte}

theorem foldlM_octet_dot (hzero : 0 ∉ piece) (hdot : dot ∉ piece) (hroom : front.length < 4)
    (rest : List Byte) :
    (piece ++ dot :: rest).foldlM inetPton4Step (fresh4 front) =
      (octet piece).bind fun v =>
        if front.length + 1 = 4 then none
        else rest.foldlM inetPton4Step (fresh4 (front ++ [BitVec.ofNat 8 v])) := by
  rw [List.foldlM_append]
  by_cases hnil : piece = []
  · subst hnil
    rfl
  · rw [foldlM_octet hzero hdot hnil hroom]
    cases octet piece with
    | none => rfl
    | some v =>
      change (inetPton4Step ((fresh4 front).digit v) dot).bind (rest.foldlM inetPton4Step) = _
      rw [inetPton4Step_dot, Option.bind_some]
      split_ifs <;> rfl

theorem foldlM_last (hzero : 0 ∉ piece) (hdot : dot ∉ piece) (hroom : front.length < 4) :
    (piece.foldlM inetPton4Step (fresh4 front)).bind finish4 =
      (octet piece).bind fun v =>
        if front.length + 1 = 4 then some (front ++ [BitVec.ofNat 8 v]) else none := by
  by_cases hnil : piece = []
  · subst hnil
    exact if_pos hroom
  · rw [foldlM_octet hzero hdot hnil hroom]
    cases octet piece with
    | none => rfl
    | some v =>
      change (if front.length + 1 < 4 then none else some (front ++ [BitVec.ofNat 8 v])) =
        if front.length + 1 = 4 then some (front ++ [BitVec.ofNat 8 v]) else none
      split_ifs <;> first | rfl | omega

/-- The rest of the numbers, from the first character of one on. -/
theorem foldlM_pieces {pieces : List (List Byte)} (hzero : ∀ p ∈ pieces, 0 ∉ p)
    (hdot : ∀ p ∈ pieces, dot ∉ p) (hne : pieces ≠ []) (hroom : front.length < 4) :
    (([dot].intercalate pieces).foldlM inetPton4Step (fresh4 front)).bind finish4 =
      (pieces.mapM octet).bind fun q =>
        if front.length + q.length = 4 then some (front ++ q.map (BitVec.ofNat 8)) else none := by
  induction pieces generalizing front with
  | nil => exact absurd rfl hne
  | cons p pieces ih =>
    rw [List.forall_mem_cons] at hzero hdot
    cases pieces with
    | nil =>
      rw [List.intercalate_singleton, List.mapM_cons, foldlM_last hzero.1 hdot.1 hroom]
      cases octet p with
      | none => rfl
      | some v => rfl
    | cons p' pieces =>
      rw [List.intercalate_cons_cons, List.append_assoc, List.singleton_append,
        foldlM_octet_dot hzero.1 hdot.1 hroom, List.mapM_cons]
      cases octet p with
      | none => rfl
      | some v =>
        change (if front.length + 1 = 4 then none else _ : Option Scan4).bind finish4 =
          (((p' :: pieces).mapM octet).bind fun q => some (v :: q)).bind _
        rw [Option.bind_assoc]
        split_ifs with hfull
        · cases hq : (p' :: pieces).mapM octet with
          | none => rfl
          | some q =>
            -- There is one number more, and no room for it.
            obtain ⟨w, -, q, -, rfl⟩ := (mapM_cons_eq_some_iff _ _ _).mp hq
            rw [Option.bind_some, Option.bind_some, List.length_cons, List.length_cons,
              if_neg (by omega)]
            rfl
        · have hlength : (front ++ [BitVec.ofNat 8 v]).length < 4 := by
            rw [List.length_append, List.length_singleton]
            omega
          rw [ih hzero.2 hdot.2 (List.cons_ne_nil _ _) hlength]
          congr 1
          funext q
          rw [Option.bind_some, List.length_append, List.length_singleton, List.length_cons,
            List.append_assoc, List.map_cons, List.singleton_append, Nat.add_assoc, Nat.add_comm 1]

end Numbers

/-- `inetPton4` takes the texts of four numbers of a byte each, with dots in between. -/
theorem inetPton4_eq (src : List Byte) : inetPton4 src = dottedQuad (cText src) := by
  have hzero : ∀ p ∈ (cText src).splitOn dot, 0 ∉ p := fun p hp h =>
    zero_notMem_cText src ((of_mem_splitOn hp).2 h)
  have hdot : ∀ p ∈ (cText src).splitOn dot, dot ∉ p := fun p hp => (of_mem_splitOn hp).1
  have hpieces := @foldlM_pieces [] _ hzero hdot (List.splitOn_ne_nil _ _) (by decide)
  rw [List.intercalate_splitOn] at hpieces
  simp only [List.length_nil, Nat.zero_add, List.nil_append] at hpieces
  exact hpieces

end ProjectMu.InetPton
