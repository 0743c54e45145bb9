import ProjectMu.RuntimeMemAllocation

/-!
# The search is a next fit that misses the places at the cursor

The two loops skip pages as far as they can, and the first may even run over the end of the
table. They find what looking at every page finds, the first place from the cursor on or else the
first at all, except where that crosses the cursor or ends at it: the second loop stops in front
of these places.
-/

namespace ProjectMu.RuntimeMem

open SkipSearch

namespace RtMemoryPageTable

variable (t : RtMemoryPageTable)

def fits (reqPages i : ℕ) : Bool := decide (∀ k < reqPages, (t.pages (i + k)).isUsed = false)

/-- A plain next fit: the first place from the cursor on, or else the first from the start. -/
def nextFit (reqPages cursor : ℕ) : Option ℕ :=
  if reqPages ≤ t.pageCount then
    (List.range' cursor (t.pageCount - reqPages + 1 - cursor) ++
      List.range (t.pageCount - reqPages + 1)).find? (t.fits reqPages)
  else none

/-- The places that the loops look at: those behind the cursor, and those that end before it. -/
def tried (reqPages cursor page : ℕ) : Bool := decide (cursor ≤ page ∨ page + reqPages < cursor)

variable {t} {reqPages behind limit i j : ℕ}

theorem fits_eq_false (hk : i ≤ j) (hj : j < i + reqPages) (hused : (t.pages j).isUsed = true) :
    t.fits reqPages i = false := by
  rw [fits, decide_eq_false_iff_not]
  intro hall
  have hfree := hall (j - i) (by omega)
  rw [Nat.add_sub_cancel' hk, hused] at hfree
  cases hfree

theorem checkPages_le : t.checkPages reqPages i ≤ reqPages :=
  (skipWhile_le _ _ _).trans (Nat.zero_add _).le

theorem checkPages_free {k : ℕ} (hk : k < t.checkPages reqPages i) :
    (t.pages (i + k)).isUsed = false := by
  have hcond := skipWhile_skipped (Nat.zero_le k) hk
  rw [Bool.and_eq_true, Bool.not_eq_true', Nat.add_comm] at hcond
  exact hcond.2

/-- The page that ends the count is used. -/
theorem checkPages_used (h : t.checkPages reqPages i < reqPages) :
    (t.pages (i + t.checkPages reqPages i)).isUsed = true := by
  have hend := skipWhile_end (h.trans_eq (Nat.zero_add reqPages).symm)
  rw [Bool.and_eq_false_iff] at hend
  rcases hend with hlt | hused
  · exact absurd h (of_decide_eq_false hlt)
  · rw [Nat.add_comm]
    simpa [checkPages] using hused

theorem checkPages_eq_iff : (t.checkPages reqPages i == reqPages) = t.fits reqPages i := by
  rw [Bool.eq_iff_iff, beq_iff_eq, fits, decide_eq_true_iff]
  constructor
  · intro heq k hk
    exact checkPages_free (hk.trans_eq heq.symm)
  · intro hall
    by_contra hne
    have hlt := lt_of_le_of_ne checkPages_le hne
    have hused := checkPages_used hlt
    rw [hall _ hlt] at hused
    cases hused

/-- Whatever loop skips further over flagged pages only, no place on the way fits. -/
theorem fits_skipped {p : ℕ → Bool} {n : ℕ} (hp : ∀ k, p k = true → t.flagged behind (k + i) = true)
    (hi : t.fits reqPages i = false) (hij : i ≤ j)
    (hj : j < i + skipWhile p n (t.checkPages reqPages i)) (hend : j + reqPages ≤ t.pageCount) :
    t.fits reqPages j = false := by
  have hlt : t.checkPages reqPages i < reqPages := by
    refine lt_of_le_of_ne checkPages_le fun heq => ?_
    rw [← checkPages_eq_iff, heq, beq_self_eq_true] at hi
    cases hi
  by_cases hsub : j ≤ i + t.checkPages reqPages i
  · exact fits_eq_false hsub (by omega) (checkPages_used hlt)
  · have hcond := hp _ (@skipWhile_skipped p n (t.checkPages reqPages i) (j - i) (by omega)
      (by omega))
    rw [Nat.sub_add_cancel hij, flagged, if_pos (by omega)] at hcond
    exact fits_eq_false le_rfl (by omega) hcond

/-- Such a loop makes progress. -/
theorem skip_pos {p : ℕ → Bool} {n : ℕ} (hn : 0 < n) (hp : (t.pages i).isUsed = true → p 0 = true)
    (hi : t.fits reqPages i = false) : 0 < skipWhile p n (t.checkPages reqPages i) := by
  rcases Nat.eq_zero_or_pos (t.checkPages reqPages i) with hzero | hpos
  · have hlt : t.checkPages reqPages i < reqPages := by
      refine lt_of_le_of_ne checkPages_le fun heq => ?_
      rw [← checkPages_eq_iff, heq, beq_self_eq_true] at hi
      cases hi
    have hused := checkPages_used hlt
    rw [hzero, Nat.add_zero] at hused
    rw [hzero]
    exact lt_skipWhile hn (hp hused)
  · exact hpos.trans_le (le_skipWhile _ _ _)

theorem flagged_of_used (hi : i < t.pageCount) (hused : (t.pages i).isUsed = true) :
    t.flagged behind i = true := by
  rw [flagged, if_pos hi, hused]

/-- The first search finds the first place from the cursor on. -/
theorem firstFit_skipPages (hreq : reqPages ≤ t.pageCount) (cursor : ℕ) :
    FirstFit (t.fits reqPages) cursor (t.pageCount - reqPages + 1)
      (skipSearch (t.fits reqPages) (t.skipPages behind reqPages) (t.pageCount - reqPages + 1)
        (t.pageCount - reqPages + 1) cursor) := by
  refine skipSearch_firstFit (fun i hi hno => ⟨?_, fun j hij hj hlimit => ?_⟩) (by omega)
  · have hpos : 0 < reqPages := by
      rcases Nat.eq_zero_or_pos reqPages with rfl | hpos
      · rw [fits, decide_eq_false_iff_not] at hno
        exact absurd (fun k hk => absurd hk (Nat.not_lt_zero k)) hno
      · exact hpos
    have hskip := skip_pos (p := fun k => t.flagged behind (k + i)) (n := t.pageCount + behind)
      (by omega) (fun hused => by
        rw [Nat.zero_add]
        exact flagged_of_used (by omega) hused) hno
    rw [skipPages]
    omega
  · exact fits_skipped (fun k hk => hk) hno hij hj (by omega)

/-- The second search finds the first place that ends before the cursor. -/
theorem firstFit_skipPagesBelow {cursor : ℕ} (hreq : reqPages ≤ cursor)
    (hcursor : cursor ≤ t.pageCount) :
    FirstFit (t.fits reqPages) 0 (cursor - reqPages)
      (skipSearch (t.fits reqPages) (t.skipPagesBelow behind reqPages (cursor - reqPages))
        (cursor - reqPages) (cursor - reqPages) 0) := by
  refine skipSearch_firstFit (fun i hi hno => ⟨?_, fun j hij hj hlimit => ?_⟩) (by omega)
  · have hskip := skip_pos
      (p := fun k => decide (k < cursor - reqPages) && t.flagged behind (k + i))
      (n := cursor - reqPages) (by omega) (fun hused => by
        rw [Nat.zero_add, decide_eq_true (by omega), Bool.true_and]
        exact flagged_of_used (by omega) hused) hno
    rw [skipPagesBelow]
    omega
  · exact fits_skipped (fun k hk => (Bool.and_eq_true_iff.mp hk).2) hno hij hj (by omega)

end RtMemoryPageTable

namespace RtMemoryPageTable

variable {t : RtMemoryPageTable} {reqPages cursor : ℕ}

/-- Without a place from the cursor on, the places that are tried are those before a limit. -/
theorem tried_eq {page : ℕ} (h : page < cursor) :
    tried reqPages cursor page = decide (page < cursor - reqPages) := by
  rw [tried, decide_eq_decide]
  omega

/-- What the two loops find. -/
theorem nextFit_tried (hreq : reqPages ≤ t.pageCount) (hcursor : cursor ≤ t.pageCount) :
    (t.nextFit reqPages cursor).filter (tried reqPages cursor) =
      (List.range' cursor (t.pageCount - reqPages + 1 - cursor) ++
        List.range (cursor - reqPages)).find? (t.fits reqPages) := by
  rw [nextFit, if_pos hreq, List.find?_append, List.find?_append]
  cases hfirst : (List.range' cursor (t.pageCount - reqPages + 1 - cursor)).find?
      (t.fits reqPages) with
  | some page =>
    obtain ⟨hlow, -⟩ := List.mem_range'_1.mp (List.mem_of_find?_eq_some hfirst)
    have htried : tried reqPages cursor page = true := decide_eq_true (.inl hlow)
    rw [Option.some_or, Option.some_or, Option.filter_some, if_pos htried]
  | none =>
    rw [Option.none_or, Option.none_or, List.range_eq_range', List.range_eq_range']
    have hbelow := (firstFit_find? (t.fits reqPages) 0 (t.pageCount - reqPages + 1)).below
      (show cursor - reqPages ≤ t.pageCount - reqPages + 1 by omega)
    rw [Nat.sub_zero] at hbelow
    have hsame := hbelow.eq_find?
    rw [Nat.sub_zero] at hsame
    rw [← hsame]
    cases hall : (List.range' 0 (t.pageCount - reqPages + 1)).find? (t.fits reqPages) with
    | none => rfl
    | some page =>
      have hbefore : page < cursor := by
        by_contra hge
        obtain ⟨-, hlast⟩ := List.mem_range'_1.mp (List.mem_of_find?_eq_some hall)
        exact List.find?_eq_none.mp hfirst page (List.mem_range'_1.mpr ⟨by omega, by omega⟩)
          (List.find?_some hall)
      rw [Option.filter_some, Option.filter_some, tried_eq hbefore]

/-- Nothing is found exactly if every place that fits crosses the cursor or ends at it. -/
theorem nextFit_tried_eq_none (hcursor : cursor ≤ t.pageCount) :
    (t.nextFit reqPages cursor).filter (tried reqPages cursor) = none ↔
      ∀ page, page + reqPages ≤ t.pageCount → t.fits reqPages page = true →
        page < cursor ∧ cursor ≤ page + reqPages := by
  by_cases hreq : reqPages ≤ t.pageCount
  · rw [nextFit_tried hreq hcursor, List.find?_eq_none]
    constructor
    · intro hnone page hinside hfits
      by_contra htried
      refine hnone page (List.mem_append.mpr ?_) hfits
      by_cases hlow : cursor ≤ page
      · exact .inl (List.mem_range'_1.mpr ⟨hlow, by omega⟩)
      · exact .inr (List.mem_range.mpr (by omega))
    · intro hall page hmem hfits
      have hinside : page + reqPages ≤ t.pageCount ∧
          (cursor ≤ page ∨ page + reqPages < cursor) := by
        rcases List.mem_append.mp hmem with hmem | hmem
        · obtain ⟨hlow, hhigh⟩ := List.mem_range'_1.mp hmem
          omega
        · have hlt := List.mem_range.mp hmem
          omega
      have hcross := hall page hinside.1 hfits
      omega
  · have hnone : t.nextFit reqPages cursor = none := if_neg hreq
    rw [hnone]
    exact ⟨fun _ page hinside => absurd ((Nat.le_add_left _ page).trans hinside) hreq, fun _ => rfl⟩

/-- A place of twice the pages is never missed: not all of it is at the cursor. -/
theorem nextFit_tried_of_twice {page : ℕ} (hcursor : cursor ≤ t.pageCount)
    (hinside : page + 2 * reqPages ≤ t.pageCount) (hfits : t.fits (2 * reqPages) page = true) :
    (t.nextFit reqPages cursor).filter (tried reqPages cursor) ≠ none := by
  intro hnone
  have hall := (nextFit_tried_eq_none hcursor).mp hnone
  have hpart (i : ℕ) (hlow : page ≤ i) (hhigh : i ≤ page + reqPages) :
      t.fits reqPages i = true := by
    rw [fits, decide_eq_true_iff] at hfits ⊢
    intro k hk
    have hfree := hfits (i - page + k) (by omega)
    rwa [show page + (i - page + k) = i + k by omega] at hfree
  have hstart := hall page (by omega) (hpart page le_rfl (by omega))
  have hmiddle := hall cursor (by omega) (hpart cursor (by omega) (by omega))
  omega

end RtMemoryPageTable

/-- The allocator finds the next fit, if that is a place that it tries, whatever stands behind the
table. -/
theorem lookupFreeMemRegion_eq (t : RtMemoryPageTable) (behind allocationSize : ℕ)
    (hcursor : rtSizeToPages t.lastEmptyPageOffset ≤ t.pageCount) :
    t.lookupFreeMemRegion behind allocationSize =
      ((t.nextFit (rtSizeToPages allocationSize) (rtSizeToPages t.lastEmptyPageOffset)).filter
        (RtMemoryPageTable.tried (rtSizeToPages allocationSize)
          (rtSizeToPages t.lastEmptyPageOffset))).map rtPagesToSize := by
  set reqPages := rtSizeToPages allocationSize with hreqDef
  set cursor := rtSizeToPages t.lastEmptyPageOffset with hcursorDef
  rw [RtMemoryPageTable.lookupFreeMemRegion]
  simp only [← hreqDef, ← hcursorDef, RtMemoryPageTable.checkPages_eq_iff]
  by_cases hreq : reqPages ≤ t.pageCount
  · rw [if_neg (by omega), RtMemoryPageTable.nextFit_tried hreq hcursor, List.find?_append]
    have hfirst := (@RtMemoryPageTable.firstFit_skipPages t _ behind hreq cursor).eq_find?
    rw [← hfirst]
    cases skipSearch (t.fits reqPages) (t.skipPages behind reqPages) (t.pageCount - reqPages + 1)
      (t.pageCount - reqPages + 1) cursor with
    | some i => rfl
    | none =>
      dsimp only
      rw [Option.none_or]
      by_cases hbefore : reqPages ≤ cursor
      · have hsecond :=
          (@RtMemoryPageTable.firstFit_skipPagesBelow t _ behind _ hbefore hcursor).eq_find?
        rw [if_neg (by omega), hsecond, List.range_eq_range', Nat.sub_zero]
      · rw [if_pos (by omega), Nat.sub_eq_zero_of_le (by omega)]
        rfl
  · have hnone : t.nextFit reqPages cursor = none := if_neg hreq
    rw [if_pos (by omega), hnone]
    rfl

end ProjectMu.RuntimeMem
