import ProjectMu.Winload

/-!
# The search for winload

From a return address into winload, the search goes down page by page to the first page that
starts like an image. It starts at the end of the page of the address and does not ask whether
the image reaches the address.
-/

namespace ProjectMu

open Arm64

def maxFwpScanLength : ℕ := 0x300000

def efiPageSize : ℕ := 0x1000

/-- `e_magic` of a DOS header. -/
def dosMagic (mem : Arm64.Memory) (header : Address) : BitVec 16 := mem (header + 1) ++ mem header

/-- `e_lfanew` of a DOS header. -/
def dosLfanew (mem : Arm64.Memory) (header : Address) : BitVec 32 := mem.read32 (header + 0x3C)

def ntHeader (mem : Arm64.Memory) (header : Address) : Address :=
  header + (dosLfanew mem header).setWidth 64

/-- `SizeOfImage` of the optional header. -/
def ntSizeOfImage (mem : Arm64.Memory) (ntHeader : Address) : BitVec 32 :=
  mem.read32 (ntHeader + 0x50)

section
variable (alignValue : (w : ℕ) → BitVec w → BitVec w → BitVec w)

def scanStart (fwpKernelSetupPhase1 : Address) : Address :=
  alignValue 64 fwpKernelSetupPhase1 (BitVec.ofNat 64 efiPageSize)

/-- The size is rounded up as the 32-bit value that it is. -/
def winloadLength (mem : Arm64.Memory) (header : Address) : BitVec 64 :=
  (alignValue 32 (ntSizeOfImage mem (ntHeader mem header))
    (BitVec.ofNat 32 efiPageSize)).setWidth 64

/-- The loop over the pages, for at most `n` of them. -/
def scanWinload (mem : Arm64.Memory) (scanEnd : Address) :
    ℕ → Address → Option (Except WinloadStatus (Address × BitVec 64))
  | 0, _ => none
  | n + 1, current =>
    if scanEnd < current then
      if dosMagic mem current ≠ 0x5A4D ∨ maxFwpScanLength < (dosLfanew mem current).toNat then
        scanWinload mem scanEnd n (current - BitVec.ofNat 64 efiPageSize)
      else if mem.read32 (ntHeader mem current) ≠ 0x4550 then
        scanWinload mem scanEnd n (current - BitVec.ofNat 64 efiPageSize)
      else some (.ok (current, winloadLength alignValue mem current))
    else some (.error .notFound)

def locateWinloadMemoryRange (mem : Arm64.Memory) (n : ℕ) (fwpKernelSetupPhase1 : Address)
    (baseIsNull lengthIsNull : Bool) : Option (Except WinloadStatus (Address × BitVec 64)) :=
  if baseIsNull ∨ lengthIsNull then some (.error .invalidParameter)
  else
    let start := scanStart alignValue fwpKernelSetupPhase1
    scanWinload alignValue mem (start - BitVec.ofNat 64 maxFwpScanLength) n start

end

/-- A page that passes the tests of both headers. -/
def ImageAt (mem : Arm64.Memory) (page : Address) : Prop :=
  dosMagic mem page = 0x5A4D ∧ (dosLfanew mem page).toNat ≤ maxFwpScanLength ∧
    mem.read32 (ntHeader mem page) = 0x4550

instance (mem : Arm64.Memory) (page : Address) : Decidable (ImageAt mem page) :=
  inferInstanceAs (Decidable (_ ∧ _ ∧ _))

variable {alignValue : (w : ℕ) → BitVec w → BitVec w → BitVec w} {mem : Arm64.Memory} {n i j : ℕ}
  {current scanEnd start fwp : Address} {result : Address × BitVec 64}

theorem scanWinload_of_imageAt (h : scanEnd < current) (himage : ImageAt mem current) :
    scanWinload alignValue mem scanEnd (n + 1) current =
      some (.ok (current, winloadLength alignValue mem current)) := by
  obtain ⟨hmagic, hlfanew, hsignature⟩ := himage
  have hdos : ¬(dosMagic mem current ≠ 0x5A4D ∨
      maxFwpScanLength < (dosLfanew mem current).toNat) := by
    rw [not_or, not_not]
    exact ⟨hmagic, Nat.not_lt.mpr hlfanew⟩
  rw [scanWinload, if_pos h, if_neg hdos, if_neg (not_not.mpr hsignature)]

theorem scanWinload_of_not_imageAt (h : scanEnd < current) (himage : ¬ImageAt mem current) :
    scanWinload alignValue mem scanEnd (n + 1) current =
      scanWinload alignValue mem scanEnd n (current - BitVec.ofNat 64 efiPageSize) := by
  rw [scanWinload, if_pos h]
  split_ifs with hdos hsignature
  · rfl
  · rfl
  · rw [not_or, not_not, Nat.not_lt] at hdos
    exact absurd ⟨hdos.1, hdos.2, not_not.mp hsignature⟩ himage

/-- The pages of the search, from the first one down. -/
def scanPage (start : Address) (i : ℕ) : Address := start - BitVec.ofNat 64 (efiPageSize * i)

def scanPages : ℕ := maxFwpScanLength / efiPageSize

theorem scanPage_zero : scanPage start 0 = start := BitVec.sub_zero start

theorem scanPage_succ :
    scanPage start i - BitVec.ofNat 64 efiPageSize = scanPage start (i + 1) := by
  rw [scanPage, scanPage, Nat.mul_succ, BitVec.ofNat_add]
  grind

theorem scanPage_toNat (hstart : maxFwpScanLength ≤ start.toNat) (hi : i ≤ scanPages) :
    (scanPage start i).toNat = start.toNat - efiPageSize * i := by
  replace hstart : 0x300000 ≤ start.toNat := hstart
  replace hi : i ≤ 768 := hi
  rw [scanPage, BitVec.toNat_sub, BitVec.toNat_ofNat, efiPageSize]
  omega

theorem lt_scanPage_iff (hstart : maxFwpScanLength ≤ start.toNat) (hi : i ≤ scanPages) :
    start - BitVec.ofNat 64 maxFwpScanLength < scanPage start i ↔ i < scanPages := by
  have hend : start - BitVec.ofNat 64 maxFwpScanLength = scanPage start scanPages := rfl
  rw [hend, BitVec.lt_def, scanPage_toNat hstart hi, scanPage_toNat hstart (le_refl scanPages)]
  replace hstart : 0x300000 ≤ start.toNat := hstart
  replace hi : i ≤ 768 := hi
  change start.toNat - 0x1000 * 768 < start.toNat - 0x1000 * i ↔ i < 768
  omega

section
variable (hstart : maxFwpScanLength ≤ start.toNat)
include hstart

/-- The first page that passes is found. -/
theorem scan_found (hij : i ≤ j) (hj : j < scanPages) (himage : ImageAt mem (scanPage start j))
    (hskip : ∀ k, i ≤ k → k < j → ¬ImageAt mem (scanPage start k)) (hn : j < i + n) :
    scanWinload alignValue mem (start - BitVec.ofNat 64 maxFwpScanLength) n (scanPage start i) =
      some (.ok (scanPage start j, winloadLength alignValue mem (scanPage start j))) := by
  induction n generalizing i with
  | zero => omega
  | succ n ih =>
    have hlt := (lt_scanPage_iff hstart (by omega)).mpr (hij.trans_lt hj)
    rcases hij.eq_or_lt with rfl | hlater
    · exact scanWinload_of_imageAt hlt himage
    · rw [scanWinload_of_not_imageAt hlt (hskip i (le_refl i) hlater), scanPage_succ]
      exact ih hlater (fun k hk => hskip k (Nat.le_of_succ_le hk)) (by omega)

/-- What is found is the first page that passes. -/
theorem scan_ok (hi : i ≤ scanPages)
    (h : scanWinload alignValue mem (start - BitVec.ofNat 64 maxFwpScanLength) n
      (scanPage start i) = some (.ok result)) :
    ∃ j, i ≤ j ∧ j < scanPages ∧ ImageAt mem (scanPage start j) ∧
      (∀ k, i ≤ k → k < j → ¬ImageAt mem (scanPage start k)) ∧
      result = (scanPage start j, winloadLength alignValue mem (scanPage start j)) := by
  induction n generalizing i with
  | zero => cases h
  | succ n ih =>
    by_cases hend : i < scanPages
    · have hlt := (lt_scanPage_iff hstart hi).mpr hend
      by_cases himage : ImageAt mem (scanPage start i)
      · rw [scanWinload_of_imageAt hlt himage] at h
        cases h
        exact ⟨i, le_refl i, hend, himage, fun k hk hki => absurd hki (by omega), rfl⟩
      · rw [scanWinload_of_not_imageAt hlt himage, scanPage_succ] at h
        obtain ⟨j, hij, hj, hfound, hskip, hresult⟩ := ih hend h
        refine ⟨j, by omega, hj, hfound, fun k hk hkj => ?_, hresult⟩
        rcases hk.eq_or_lt with rfl | hlater
        · exact himage
        · exact hskip k hlater hkj
    · have hge := mt (lt_scanPage_iff hstart hi).mp hend
      rw [scanWinload, if_neg hge] at h
      cases h

end

/-- Rounding up to a boundary. -/
def RoundsUp (alignValue : (w : ℕ) → BitVec w → BitVec w → BitVec w) : Prop :=
  ∀ value : BitVec 64, value.toNat + efiPageSize ≤ 2 ^ 64 →
    (alignValue 64 value (BitVec.ofNat 64 efiPageSize)).toNat =
      (value.toNat + (efiPageSize - 1)) / efiPageSize * efiPageSize

variable (alignValue : (w : ℕ) → BitVec w → BitVec w → BitVec w)

/-- The image that the address lies in is found, and no other one. -/
structure LocatesImage (mem : Arm64.Memory) (fwp : Address) : Prop where
  sound : ∀ n base length,
    locateWinloadMemoryRange alignValue mem n fwp false false = some (.ok (base, length)) →
    efiPageSize ∣ base.toNat ∧ base ≤ fwp ∧ fwp.toNat < base.toNat + length.toNat ∧
      fwp.toNat ≤ base.toNat + maxFwpScanLength ∧
      ∀ page, efiPageSize ∣ page.toNat → base < page → page ≤ fwp → ¬ImageAt mem page
  complete : ∀ header, efiPageSize ∣ header.toNat → header ≤ fwp →
    fwp.toNat ≤ header.toNat + (maxFwpScanLength - efiPageSize) → ImageAt mem header →
    fwp.toNat < header.toNat + (winloadLength alignValue mem header).toNat →
    (∀ page, efiPageSize ∣ page.toNat → header < page → page ≤ fwp → ¬ImageAt mem page) →
    ∀ n, scanPages ≤ n → locateWinloadMemoryRange alignValue mem n fwp false false =
      some (.ok (header, winloadLength alignValue mem header))

/-- The page that starts behind the address does not look like an image, and the first one
below that does, contains the address. -/
structure NearestContains (mem : Arm64.Memory) (fwp : Address) : Prop where
  behind : ¬efiPageSize ∣ fwp.toNat →
    ¬ImageAt mem (scanStart alignValue fwp)
  below : ∀ header, efiPageSize ∣ header.toNat → header ≤ fwp →
    (scanStart alignValue fwp).toNat < header.toNat + maxFwpScanLength →
    ImageAt mem header →
    (∀ page, efiPageSize ∣ page.toNat → header < page → page ≤ fwp → ¬ImageAt mem page) →
    fwp.toNat < header.toNat + (winloadLength alignValue mem header).toNat

theorem exists_scanPage {page : Address} (hstart : efiPageSize ∣ start.toNat)
    (hpage : efiPageSize ∣ page.toNat) (hle : page.toNat ≤ start.toNat)
    (hlt : start.toNat < page.toNat + maxFwpScanLength) (hlow : maxFwpScanLength ≤ start.toNat) :
    ∃ i < scanPages, page = scanPage start i := by
  obtain ⟨a, ha⟩ := hstart
  obtain ⟨b, hb⟩ := hpage
  have hcount : a - b < scanPages := by
    simp only [efiPageSize, maxFwpScanLength, scanPages] at *
    omega
  refine ⟨a - b, hcount, BitVec.eq_of_toNat_eq ?_⟩
  rw [scanPage_toNat hlow hcount.le, Nat.mul_sub]
  omega

theorem scanPage_lt (hlow : maxFwpScanLength ≤ start.toNat) (hij : i < j) (hj : j ≤ scanPages) :
    scanPage start j < scanPage start i := by
  rw [BitVec.lt_def, scanPage_toNat hlow hj, scanPage_toNat hlow (by omega)]
  replace hj : j ≤ 768 := hj
  replace hlow : 0x300000 ≤ start.toNat := hlow
  rw [efiPageSize]
  omega

theorem dvd_scanPage (hstart : efiPageSize ∣ start.toNat) (hlow : maxFwpScanLength ≤ start.toNat)
    (hi : i ≤ scanPages) : efiPageSize ∣ (scanPage start i).toNat := by
  rw [scanPage_toNat hlow hi]
  exact Nat.dvd_sub hstart (Dvd.intro i rfl)

theorem locate_eq_scan : locateWinloadMemoryRange alignValue mem n fwp false false =
    scanWinload alignValue mem (scanStart alignValue fwp - BitVec.ofNat 64 maxFwpScanLength) n
      (scanPage (scanStart alignValue fwp) 0) := by
  rw [scanPage_zero]
  rfl

theorem locate_found (hstart : maxFwpScanLength ≤ (scanStart alignValue fwp).toNat)
    (hj : j < scanPages) (himage : ImageAt mem (scanPage (scanStart alignValue fwp) j))
    (hskip : ∀ k < j, ¬ImageAt mem (scanPage (scanStart alignValue fwp) k)) (hn : j < n) :
    locateWinloadMemoryRange alignValue mem n fwp false false =
      some (.ok (scanPage (scanStart alignValue fwp) j,
        winloadLength alignValue mem (scanPage (scanStart alignValue fwp) j))) := by
  rw [locate_eq_scan]
  exact scan_found hstart (Nat.zero_le j) hj himage (fun k _ => hskip k) (by omega)

section
variable {alignValue} (halign : RoundsUp alignValue)
  (hlow : maxFwpScanLength + efiPageSize ≤ fwp.toNat) (hhigh : fwp.toNat + efiPageSize ≤ 2 ^ 64)
include halign hhigh

/-- Where the search starts. -/
theorem scanStart_spec : efiPageSize ∣ (scanStart alignValue fwp).toNat ∧
    fwp.toNat ≤ (scanStart alignValue fwp).toNat ∧
    (scanStart alignValue fwp).toNat < fwp.toNat + efiPageSize := by
  rw [scanStart, halign fwp hhigh]
  refine ⟨Dvd.intro_left _ rfl, ?_⟩
  rw [efiPageSize]
  omega

include hlow

/-- Only the first page can lie behind the address. -/
theorem scanPage_behind (hi : i < scanPages) (h : ¬scanPage (scanStart alignValue fwp) i ≤ fwp) :
    i = 0 ∧ ¬efiPageSize ∣ fwp.toNat := by
  obtain ⟨⟨a, ha⟩, hle, hlt⟩ := scanStart_spec halign hhigh
  rw [BitVec.le_def, scanPage_toNat (by omega) hi.le] at h
  simp only [efiPageSize] at *
  constructor
  · omega
  · rintro ⟨b, hb⟩
    omega

theorem not_imageAt_before
    (hbehind : ¬efiPageSize ∣ fwp.toNat → ¬ImageAt mem (scanStart alignValue fwp))
    (hj : j < scanPages) (hbetween : ∀ page, efiPageSize ∣ page.toNat →
      scanPage (scanStart alignValue fwp) j < page → page ≤ fwp → ¬ImageAt mem page) :
    ∀ k < j, ¬ImageAt mem (scanPage (scanStart alignValue fwp) k) := by
  intro k hk
  obtain ⟨hdvd, hle, hlt⟩ := scanStart_spec halign hhigh
  by_cases hbelow : scanPage (scanStart alignValue fwp) k ≤ fwp
  · exact hbetween _ (dvd_scanPage hdvd (by omega) (by omega)) (scanPage_lt (by omega) hk hj.le)
      hbelow
  · obtain ⟨rfl, hfwp⟩ := scanPage_behind halign hlow hhigh (hk.trans hj) hbelow
    rw [scanPage_zero]
    exact hbehind hfwp

theorem LocatesImage.nearestContains (h : LocatesImage alignValue mem fwp) :
    NearestContains alignValue mem fwp := by
  obtain ⟨hdvd, hle, hlt⟩ := scanStart_spec halign hhigh
  have hstart : maxFwpScanLength ≤ (scanStart alignValue fwp).toNat := by omega
  have hbehind : ¬efiPageSize ∣ fwp.toNat → ¬ImageAt mem (scanStart alignValue fwp) := by
    intro hfwp himage
    rw [← @scanPage_zero (scanStart alignValue fwp)] at himage
    have hfound := locate_found alignValue hstart (by decide) himage
      (fun k hk => absurd hk (Nat.not_lt_zero k)) Nat.one_pos
    have hbase := (h.sound 1 _ _ hfound).2.1
    rw [scanPage_zero, BitVec.le_def] at hbase
    exact hfwp (le_antisymm hbase hle ▸ hdvd)
  refine ⟨hbehind, fun header hheader hbelow hscan himage hbetween => ?_⟩
  obtain ⟨j, hj, rfl⟩ := exists_scanPage hdvd hheader ((BitVec.le_def.mp hbelow).trans hle) hscan
    hstart
  have hfound := locate_found alignValue hstart hj himage
    (not_imageAt_before halign hlow hhigh hbehind hj hbetween) (Nat.lt_succ_self j)
  exact (h.sound (j + 1) _ _ hfound).2.2.1

theorem NearestContains.locatesImage (h : NearestContains alignValue mem fwp) :
    LocatesImage alignValue mem fwp := by
  obtain ⟨hdvd, hle, hlt⟩ := scanStart_spec halign hhigh
  have hstart : maxFwpScanLength ≤ (scanStart alignValue fwp).toNat := by omega
  constructor
  · intro n base length hlocate
    rw [locate_eq_scan] at hlocate
    obtain ⟨j, -, hj, himage, hskip, hresult⟩ := scan_ok hstart (Nat.zero_le _) hlocate
    cases hresult
    have hbelow : scanPage (scanStart alignValue fwp) j ≤ fwp := by
      by_contra habove
      obtain ⟨rfl, hfwp⟩ := scanPage_behind halign hlow hhigh hj habove
      rw [scanPage_zero] at himage
      exact h.behind hfwp himage
    have hpage := scanPage_toNat hstart hj.le
    have hscan : (scanStart alignValue fwp).toNat <
        (scanPage (scanStart alignValue fwp) j).toNat + maxFwpScanLength := by
      rw [hpage]
      simp only [efiPageSize, scanPages, maxFwpScanLength] at *
      omega
    have hbetween : ∀ page, efiPageSize ∣ page.toNat →
        scanPage (scanStart alignValue fwp) j < page → page ≤ fwp → ¬ImageAt mem page := by
      intro page hdvdpage hhigher hlower
      obtain ⟨i, hi, rfl⟩ := exists_scanPage hdvd hdvdpage ((BitVec.le_def.mp hlower).trans hle)
        (hscan.trans (Nat.add_lt_add_right (BitVec.lt_def.mp hhigher) _)) hstart
      refine hskip i (Nat.zero_le i) ?_
      by_contra hij
      rcases (Nat.not_lt.mp hij).eq_or_lt with rfl | hlater
      · exact absurd hhigher (BitVec.lt_irrefl _)
      · exact absurd (scanPage_lt hstart hlater hi.le) (BitVec.lt_asymm hhigher)
    have hdvdbase := dvd_scanPage hdvd hstart hj.le
    exact ⟨hdvdbase, hbelow, h.below _ hdvdbase hbelow hscan himage hbetween, by omega, hbetween⟩
  · intro header hheader hbelow hnear himage _ hbetween n hn
    have hpage : efiPageSize ≤ maxFwpScanLength := by decide
    obtain ⟨j, hj, rfl⟩ := exists_scanPage hdvd hheader ((BitVec.le_def.mp hbelow).trans hle)
      (by omega) hstart
    exact locate_found alignValue hstart hj himage
      (not_imageAt_before halign hlow hhigh h.behind hj hbetween) (by omega)

end

/-- The image of the address is found exactly where nothing behind or before it is taken for
it. -/
theorem locatesImage_iff (mem : Arm64.Memory) (fwp : Address) (halign : RoundsUp alignValue)
    (hlow : maxFwpScanLength + efiPageSize ≤ fwp.toNat)
    (hhigh : fwp.toNat + efiPageSize ≤ 2 ^ 64) :
    LocatesImage alignValue mem fwp ↔ NearestContains alignValue mem fwp :=
  ⟨LocatesImage.nearestContains halign hlow hhigh, NearestContains.locatesImage halign hlow hhigh⟩

/-- Rounding up to a power of two with a mask. -/
def alignUp (w : ℕ) (value alignment : BitVec w) : BitVec w :=
  value + ((alignment - value) &&& (alignment - 1))

theorem alignUp_roundsUp : RoundsUp alignUp := by
  intro value hvalue
  have hmask : ((BitVec.ofNat 64 efiPageSize - value) &&& (BitVec.ofNat 64 efiPageSize - 1)).toNat =
      (BitVec.ofNat 64 efiPageSize - value).toNat % 2 ^ 12 := by
    rw [BitVec.toNat_and, ← Nat.and_two_pow_sub_one_eq_mod]
    rfl
  rw [alignUp, BitVec.toNat_add, hmask, BitVec.toNat_sub, BitVec.toNat_ofNat]
  rw [efiPageSize] at hvalue ⊢
  omega

/-- An image at 0x402000 and zeros around its headers. -/
def imageBehind : Arm64.Memory :=
  .ofWords 0x402000 ([0x5A4D] ++ List.replicate 14 0 ++ [0x40, 0x4550] ++ List.replicate 19 0 ++
    [0x1000])

theorem locatesImage_imageBehind_iff : LocatesImage alignUp imageBehind 0x401800 ↔
    NearestContains alignUp imageBehind 0x401800 :=
  locatesImage_iff alignUp imageBehind 0x401800 alignUp_roundsUp (by decide) (by decide)

/-- The image that starts behind the address is returned for it. -/
theorem imageBehind_not_locatesImage :
    ¬∀ (alignValue : (w : ℕ) → BitVec w → BitVec w → BitVec w) (mem : Arm64.Memory)
      (fwp : Address), RoundsUp alignValue → maxFwpScanLength + efiPageSize ≤ fwp.toNat →
      fwp.toNat + efiPageSize ≤ 2 ^ 64 → LocatesImage alignValue mem fwp := by
  intro h
  have hfound : locateWinloadMemoryRange alignUp imageBehind 1 0x401800 false false =
      some (.ok (0x402000, 0x1000)) := by
    decide +kernel
  have hbase := ((h alignUp imageBehind 0x401800 alignUp_roundsUp (by decide)
    (by decide)).sound 1 _ _ hfound).2.1
  exact absurd hbase (by decide)

end ProjectMu
