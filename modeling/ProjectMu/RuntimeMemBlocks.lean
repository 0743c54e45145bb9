import ProjectMu.RuntimeMemLookup

/-!
# The blocks that a page table describes

The used pages of a table are those of the blocks that were handed out and not freed, no two of
which share a page, and each page of a block carries the offset of its start. An allocation adds
a block of free pages, and a free takes away the pages of one block and no other.
-/

namespace ProjectMu.RuntimeMem

open ByteCodec ByteRange SkipSearch

/-- Pages that were handed out, and what the caller's part of them holds. -/
structure PageBlock where
  start : ℕ
  pages : ℕ
  content : List Byte
  deriving DecidableEq, Repr

namespace PageBlock

def Covers (b : PageBlock) (i : ℕ) : Prop := b.start ≤ i ∧ i < b.start + b.pages

def Apart (a b : PageBlock) : Prop := a.start + a.pages ≤ b.start ∨ b.start + b.pages ≤ a.start

def pointer (base : ℕ) (b : PageBlock) : ℕ := base + rtPagesToSize b.start

instance : Std.Symm Apart := ⟨fun _ _ h => h.symm⟩

end PageBlock

/-- A block is used by its own offset, inside the table, and holds its content. -/
structure Holds (s : RuntimeMemory) (b : PageBlock) : Prop where
  pages_pos : 0 < b.pages
  inside : b.start + b.pages ≤ s.table.pageCount
  owned : ∀ i, b.Covers i → s.table.owns (rtPagesToSize b.start) i = true
  length_le : b.content.length ≤ rtPagesToSize b.pages
  content_eq : s.memory.read (b.pointer s.table.dataAreaBase) b.content.length = b.content

structure Describes (s : RuntimeMemory) (blocks : List PageBlock) : Prop where
  base_pos : 0 < s.table.dataAreaBase
  cursor : ∃ k ≤ s.table.pageCount, s.table.lastEmptyPageOffset = rtPagesToSize k
  used : ∀ i < s.table.pageCount, (s.table.pages i).isUsed = true → ∃ b ∈ blocks, b.Covers i
  holds : ∀ b ∈ blocks, Holds s b
  apart : blocks.Pairwise PageBlock.Apart

variable {s s' : RuntimeMemory} {t : RtMemoryPageTable} {blocks : List PageBlock}
  {b c : PageBlock} {behind size i j n : ℕ}

theorem isUsed_mark (offset : ℕ) (flag : BitVec 32) :
    (RtMemoryPageEntry.mk offset (flag ||| rtPageUsed)).isUsed = true := by
  have hbit : (flag ||| rtPageUsed) &&& rtPageUsed = rtPageUsed := by
    ext k hk
    simpa using Or.inr
  rw [RtMemoryPageEntry.isUsed, hbit]
  rfl

theorem isUsed_free (offset : ℕ) (flag : BitVec 32) :
    (RtMemoryPageEntry.mk offset ((flag &&& ~~~rtPageUsed) ||| rtPageFree)).isUsed = false := by
  have hbit : ((flag &&& ~~~rtPageUsed) ||| rtPageFree) &&& rtPageUsed = 0 := by
    ext k hk
    simp [rtPageFree]
  rw [RtMemoryPageEntry.isUsed, hbit]
  rfl

theorem markPages_apply (t : RtMemoryPageTable) (start offset n j : ℕ) :
    t.markPages start offset n j =
      if start ≤ j ∧ j < start + n then ⟨offset, (t.pages j).pageFlag ||| rtPageUsed⟩
      else t.pages j := by
  induction n with
  | zero => rw [RtMemoryPageTable.markPages, if_neg (by omega)]
  | succ n ih =>
    rw [RtMemoryPageTable.markPages]
    by_cases hj : j = start + n
    · subst hj
      rw [Function.update_self, ih, if_neg (by omega), if_pos (by omega)]
    · rw [Function.update_of_ne hj, ih]
      by_cases hin : start ≤ j ∧ j < start + n
      · rw [if_pos hin, if_pos (by omega)]
      · rw [if_neg hin, if_neg (by omega)]

namespace Describes

theorem eq_of_covers (h : Describes s blocks) (hb : b ∈ blocks) (hc : c ∈ blocks)
    (hbi : b.Covers i) (hci : c.Covers i) : c = b := by
  by_contra hne
  have hapart := h.apart.forall hc hb hne
  unfold PageBlock.Apart PageBlock.Covers at *
  omega

theorem covers_start (h : Describes s blocks) (hb : b ∈ blocks) : b.Covers b.start :=
  ⟨le_rfl, Nat.lt_add_of_pos_right (h.holds b hb).pages_pos⟩

theorem eq_of_start (h : Describes s blocks) (hb : b ∈ blocks) (hc : c ∈ blocks)
    (hstart : c.start = b.start) : c = b :=
  h.eq_of_covers hb hc (h.covers_start hb) (hstart ▸ h.covers_start hc)

theorem startPageIndex_eq (h : Describes s blocks) (hb : b ∈ blocks) :
    s.table.startPageIndex (rtPagesToSize b.start) = b.start := by
  have howned := (h.holds b hb).owned b.start (h.covers_start hb)
  rw [RtMemoryPageTable.owns, Bool.and_eq_true, beq_iff_eq] at howned
  rw [RtMemoryPageTable.startPageIndex, rtSizeToPages_rtPagesToSize, howned.2,
    rtSizeToPages_rtPagesToSize]

/-- Behind a block the pages are free or belong to another one. -/
theorem owns_end (h : Describes s blocks) (hb : b ∈ blocks)
    (hend : b.start + b.pages < s.table.pageCount) :
    s.table.owns (rtPagesToSize b.start) (b.start + b.pages) = false := by
  cases howns : s.table.owns (rtPagesToSize b.start) (b.start + b.pages) with
  | false => rfl
  | true =>
    rw [RtMemoryPageTable.owns, Bool.and_eq_true, beq_iff_eq] at howns
    obtain ⟨c, hc, hcovers⟩ := h.used _ hend howns.1
    have howned := (h.holds c hc).owned _ hcovers
    rw [RtMemoryPageTable.owns, Bool.and_eq_true, beq_iff_eq] at howned
    have hstart : c.start = b.start := by
      have heq := howned.2.symm.trans howns.2
      rw [rtPagesToSize_eq, rtPagesToSize_eq] at heq
      omega
    rw [h.eq_of_start hb hc hstart] at hcovers
    exact absurd hcovers.2 (Nat.lt_irrefl _)

/-- The size that `realloc` finds. -/
theorem countPages_eq (h : Describes s blocks) (hb : b ∈ blocks) :
    s.table.countPages (rtPagesToSize b.start) = b.pages := by
  have hinside := (h.holds b hb).inside
  have hstop : skipWhile (fun i => decide (i < s.table.pageCount) &&
      s.table.owns (rtPagesToSize b.start) i) s.table.pageCount b.start = b.start + b.pages := by
    refine skipWhile_eq (Nat.le_add_right _ _) (by omega) (fun k hk hlt => ?_) (fun _ => ?_)
    · rw [decide_eq_true (show k < s.table.pageCount by omega), Bool.true_and]
      exact (h.holds b hb).owned k ⟨hk, hlt⟩
    · by_cases hend : b.start + b.pages < s.table.pageCount
      · rw [h.owns_end hb hend, Bool.and_false]
      · rw [decide_eq_false hend, Bool.false_and]
  rw [RtMemoryPageTable.countPages, h.startPageIndex_eq hb, hstop, Nat.add_sub_cancel_left]

end Describes

/-- The table with the pages of a range freed. -/
def freedRange (t : RtMemoryPageTable) (i j : ℕ) : RtMemoryPageTable :=
  { t with
    pages := fun k =>
      if i ≤ k ∧ k < j then ⟨0, ((t.pages k).pageFlag &&& ~~~rtPageUsed) ||| rtPageFree⟩
      else t.pages k }

theorem freedRange_self (t : RtMemoryPageTable) (i : ℕ) : freedRange t i i = t := by
  have hpages : (fun k => if i ≤ k ∧ k < i then
      (⟨0, ((t.pages k).pageFlag &&& ~~~rtPageUsed) ||| rtPageFree⟩ : RtMemoryPageEntry)
      else t.pages k) = t.pages := by
    funext k
    exact if_neg (by omega)
  rw [freedRange, hpages]

theorem freedRange_succ (hij : i < j) : freedRange (t.freePage i) (i + 1) j = freedRange t i j := by
  unfold freedRange RtMemoryPageTable.freePage
  congr 1
  funext k
  dsimp only
  by_cases hk : k = i
  · subst hk
    rw [Function.update_self, if_neg (by omega), if_pos (by omega)]
  · rw [Function.update_of_ne hk]
    by_cases hin : i ≤ k ∧ k < j
    · rw [if_pos hin, if_pos (by omega)]
    · rw [if_neg hin, if_neg (by omega)]

/-- The loop of a free releases the pages with the offset, up to the first without. -/
theorem freePages_eq {offset : ℕ} (hij : i ≤ j) (hfuel : j ≤ i + n) (hend : j ≤ t.pageCount)
    (howns : ∀ k, i ≤ k → k < j → t.owns offset k = true)
    (hstop : j < t.pageCount → t.owns offset j = false) :
    freePages offset n i t = freedRange t i j := by
  induction n generalizing i t with
  | zero =>
    obtain rfl : i = j := by omega
    rw [freePages, freedRange_self]
  | succ n ih =>
    rw [freePages]
    rcases Nat.eq_or_lt_of_le hij with rfl | hlt
    · rw [freedRange_self]
      split_ifs with hi how
      · rw [hstop hi] at how
        cases how
      · rfl
      · rfl
    · have hkeep (k : ℕ) (hk : k ≠ i) : (t.freePage i).owns offset k = t.owns offset k := by
        unfold RtMemoryPageTable.owns RtMemoryPageTable.freePage
        dsimp only
        rw [Function.update_of_ne hk]
      have hrest : freePages offset n (i + 1) (t.freePage i) =
          freedRange (t.freePage i) (i + 1) j := by
        refine ih hlt (by omega) hend (fun k hk hkj => ?_) (fun h => ?_)
        · rw [hkeep k (by omega), howns k (by omega) hkj]
        · rw [hkeep j (by omega), hstop h]
      rw [if_pos (by omega), if_pos (howns i le_rfl hlt), hrest, freedRange_succ hlt]

/-- A free in a described state releases the pages of its block. -/
theorem Describes.runtimeFreeMem_eq (h : Describes s blocks) (hb : b ∈ blocks) :
    runtimeFreeMem (b.pointer s.table.dataAreaBase) s =
      { s with table := freedRange s.table b.start (b.start + b.pages) } := by
  have hholds := h.holds b hb
  have hoffset : b.pointer s.table.dataAreaBase - s.table.dataAreaBase = rtPagesToSize b.start :=
    Nat.add_sub_cancel_left ..
  have hinside := hholds.inside
  rw [runtimeFreeMem, hoffset, h.startPageIndex_eq hb,
    freePages_eq (Nat.le_add_right _ _) (by omega) hinside
      (fun k hk hkj => hholds.owned k ⟨hk, hkj⟩) (h.owns_end hb)]

/-- The blocks that do not start at a page. -/
def without (start : ℕ) (blocks : List PageBlock) : List PageBlock :=
  blocks.filter fun c => c.start != start

theorem mem_without {start : ℕ} : c ∈ without start blocks ↔ c ∈ blocks ∧ c.start ≠ start := by
  rw [without, List.mem_filter, bne_iff_ne]

theorem owns_freedRange {offset k : ℕ} (hk : ¬(i ≤ k ∧ k < j)) :
    (freedRange t i j).owns offset k = t.owns offset k := by
  rw [RtMemoryPageTable.owns, RtMemoryPageTable.owns, freedRange]
  dsimp only
  rw [if_neg hk]

theorem Describes.free (h : Describes s blocks) (hb : b ∈ blocks) :
    Describes (runtimeFreeMem (b.pointer s.table.dataAreaBase) s) (without b.start blocks) := by
  rw [h.runtimeFreeMem_eq hb]
  refine ⟨h.base_pos, h.cursor, ?_, ?_, h.apart.filter _⟩
  · intro k hk hused
    by_cases hin : b.start ≤ k ∧ k < b.start + b.pages
    · have hfree : ((freedRange s.table b.start (b.start + b.pages)).pages k).isUsed = false := by
        rw [freedRange]
        dsimp only
        rw [if_pos hin, isUsed_free]
      rw [hfree] at hused
      cases hused
    · have hsame : (freedRange s.table b.start (b.start + b.pages)).pages k = s.table.pages k :=
        if_neg hin
      rw [hsame] at hused
      obtain ⟨c, hc, hcovers⟩ := h.used k hk hused
      refine ⟨c, mem_without.mpr ⟨hc, fun hstart => ?_⟩, hcovers⟩
      rw [h.eq_of_start hb hc hstart] at hcovers
      exact hin hcovers
  · intro c hc
    obtain ⟨hmem, hstart⟩ := mem_without.mp hc
    have hholds := h.holds c hmem
    refine ⟨hholds.pages_pos, hholds.inside, fun k hk => ?_, hholds.length_le, hholds.content_eq⟩
    rw [owns_freedRange]
    · exact hholds.owned k hk
    · intro hin
      exact hstart (congrArg PageBlock.start (h.eq_of_covers hb hmem hin hk))

/-- The bytes of a block, as far as its pages reach. -/
def PageBlock.region (base n : ℕ) (b : PageBlock) : Region := ⟨b.pointer base, n⟩

theorem PageBlock.Apart.disjoint (h : b.Apart c) {base m k : ℕ} (hm : m ≤ rtPagesToSize b.pages)
    (hk : k ≤ rtPagesToSize c.pages) : (b.region base m).Disjoint (c.region base k) := by
  unfold PageBlock.Apart at h
  unfold Region.Disjoint PageBlock.region PageBlock.pointer
  simp only [rtPagesToSize_eq] at *
  omega

/-- Stores inside a block change the content of that block only. -/
theorem Describes.store (h : Describes s blocks) (hb : b ∈ blocks) {memory : Store Byte}
    (hmemory : ∀ c ∈ blocks, c ≠ b →
      memory.AgreeOn s.memory (c.region s.table.dataAreaBase c.content.length))
    {size : ℕ} (hsize : size ≤ rtPagesToSize b.pages) :
    Describes { s with memory := memory }
      ({ b with content := memory.read (b.pointer s.table.dataAreaBase) size } ::
        without b.start blocks) := by
  have hholds := h.holds b hb
  refine ⟨h.base_pos, h.cursor, ?_, ?_, ?_⟩
  · intro k hk hused
    obtain ⟨c, hc, hcovers⟩ := h.used k hk hused
    by_cases hstart : c.start = b.start
    · rw [h.eq_of_start hb hc hstart] at hcovers
      exact ⟨_, List.mem_cons_self, hcovers⟩
    · exact ⟨c, List.mem_cons_of_mem _ (mem_without.mpr ⟨hc, hstart⟩), hcovers⟩
  · intro c hc
    rcases List.mem_cons.mp hc with rfl | hc
    · refine ⟨hholds.pages_pos, hholds.inside, hholds.owned, ?_, ?_⟩
      · rw [Store.length_read]
        exact hsize
      · rw [Store.length_read]
        rfl
    · obtain ⟨hmem, hstart⟩ := mem_without.mp hc
      have hold := h.holds c hmem
      refine ⟨hold.pages_pos, hold.inside, hold.owned, hold.length_le, ?_⟩
      have hagree := hmemory c hmem (fun heq => hstart (congrArg PageBlock.start heq))
      exact (hagree.read le_rfl).trans hold.content_eq
  · refine List.pairwise_cons.mpr ⟨fun c hc => ?_, h.apart.filter _⟩
    obtain ⟨hmem, hstart⟩ := mem_without.mp hc
    exact h.apart.forall hb hmem (fun heq => hstart (congrArg PageBlock.start heq).symm)

theorem nextFit_some {reqPages cursor : ℕ} (h : t.nextFit reqPages cursor = some i) :
    i + reqPages ≤ t.pageCount ∧ ∀ k < reqPages, (t.pages (i + k)).isUsed = false := by
  unfold RtMemoryPageTable.nextFit at h
  split_ifs at h with hreq
  have hfits : t.fits reqPages i = true := List.find?_some h
  refine ⟨?_, of_decide_eq_true hfits⟩
  rcases List.mem_append.mp (List.mem_of_find?_eq_some h) with hmem | hmem
  · obtain ⟨hlow, hhigh⟩ := List.mem_range'_1.mp hmem
    omega
  · have hi := List.mem_range.mp hmem
    omega

/-- The state after an allocation at a page. -/
def RuntimeMemory.allocated (s : RuntimeMemory) (start size : ℕ) : RuntimeMemory where
  table :=
    { s.table with
      pages := s.table.markPages start (rtPagesToSize start) (rtSizeToPages size)
      lastEmptyPageOffset := rtPagesToSize start + rtPagesToSize (rtSizeToPages size) }
  memory := s.memory.write (s.table.dataAreaBase + rtPagesToSize start) (List.replicate size 0)

/-- The block of an allocation. -/
def clearedBlock (start size : ℕ) : PageBlock :=
  ⟨start, rtSizeToPages size, List.replicate size 0⟩

theorem owns_allocated {start offset k : ℕ} :
    (s.allocated start size).table.owns offset k =
      if start ≤ k ∧ k < start + rtSizeToPages size then rtPagesToSize start == offset
      else s.table.owns offset k := by
  rw [RtMemoryPageTable.owns, RuntimeMemory.allocated]
  dsimp only
  rw [markPages_apply]
  split_ifs with hin
  · rw [isUsed_mark, Bool.true_and]
  · rfl

/-- Free pages may be handed out. -/
theorem Describes.allocated (h : Describes s blocks) {start : ℕ} (hsize : 0 < size)
    (hinside : start + rtSizeToPages size ≤ s.table.pageCount)
    (hapart : ∀ b ∈ blocks, b.Apart (clearedBlock start size)) :
    Describes (s.allocated start size) (clearedBlock start size :: blocks) := by
  refine ⟨h.base_pos, ⟨start + rtSizeToPages size, hinside, ?_⟩, ?_, ?_, ?_⟩
  · rw [RuntimeMemory.allocated]
    simp only [rtPagesToSize_eq]
    ring
  · intro k hk hused
    by_cases hin : start ≤ k ∧ k < start + rtSizeToPages size
    · exact ⟨_, List.mem_cons_self, hin⟩
    · have hsame : (s.allocated start size).table.pages k = s.table.pages k := by
        rw [RuntimeMemory.allocated]
        dsimp only
        rw [markPages_apply, if_neg hin]
      rw [hsame] at hused
      obtain ⟨b, hb, hcovers⟩ := h.used k hk hused
      exact ⟨b, List.mem_cons_of_mem _ hb, hcovers⟩
  · intro b hb
    rcases List.mem_cons.mp hb with rfl | hb
    · refine ⟨rtSizeToPages_pos hsize, hinside, fun k hk => ?_, ?_, Store.read_write_self ..⟩
      · have hin : start ≤ k ∧ k < start + rtSizeToPages size := hk
        rw [owns_allocated, if_pos hin]
        exact beq_self_eq_true _
      · rw [clearedBlock, List.length_replicate]
        exact le_rtPagesToSize size
    · have hholds := h.holds b hb
      refine ⟨hholds.pages_pos, hholds.inside, fun k hk => ?_, hholds.length_le, ?_⟩
      · have hout : ¬(start ≤ k ∧ k < start + rtSizeToPages size) := by
          have hsides : b.start + b.pages ≤ start ∨ start + rtSizeToPages size ≤ b.start :=
            hapart b hb
          obtain ⟨hlow, hhigh⟩ := hk
          omega
        rw [owns_allocated, if_neg hout]
        exact hholds.owned k hk
      · have hdisjoint : (b.region s.table.dataAreaBase b.content.length).Disjoint
            ((clearedBlock start size).region s.table.dataAreaBase size) :=
          (hapart b hb).disjoint hholds.length_le (le_rtPagesToSize size)
        have hagree : (s.allocated start size).memory.AgreeOn s.memory
            (b.region s.table.dataAreaBase b.content.length) := by
          apply Store.agreeOn_write
          rw [List.length_replicate]
          exact Region.disjoint_comm.mp hdisjoint
        exact (hagree.read le_rfl).trans hholds.content_eq
  · exact List.pairwise_cons.mpr ⟨fun b hb => (hapart b hb).symm, h.apart⟩

/-- An allocation takes pages that no block has, or fails and changes nothing. It does not fail
where twice the pages are free in a row. -/
theorem Describes.allocate (h : Describes s blocks) (behind : ℕ) (hsize : 0 < size) :
    (runtimeAllocateMem behind size s = (none, s) ∧
      ∀ page, page + 2 * rtSizeToPages size ≤ s.table.pageCount →
        s.table.fits (2 * rtSizeToPages size) page = false) ∨
    ∃ start, runtimeAllocateMem behind size s =
        (some ((clearedBlock start size).pointer s.table.dataAreaBase), s.allocated start size) ∧
      (∀ b ∈ blocks, b.Apart (clearedBlock start size)) ∧
      Describes (s.allocated start size) (clearedBlock start size :: blocks) := by
  obtain ⟨cursor, hcursor, hlast⟩ := h.cursor
  have hlookup := lookupFreeMemRegion_eq s.table behind size
    (by rw [hlast, rtSizeToPages_rtPagesToSize]; exact hcursor)
  rw [hlast, rtSizeToPages_rtPagesToSize] at hlookup
  cases hfit : (s.table.nextFit (rtSizeToPages size) cursor).filter
      (RtMemoryPageTable.tried (rtSizeToPages size) cursor) with
  | none =>
    left
    rw [runtimeAllocateMem, hlookup, hfit]
    refine ⟨rfl, fun page hinside => Bool.eq_false_iff.mpr fun hfits => ?_⟩
    exact RtMemoryPageTable.nextFit_tried_of_twice hcursor hinside hfits hfit
  | some start =>
    right
    obtain ⟨hinside, hfree⟩ := nextFit_some (Option.filter_eq_some_iff.mp hfit).1
    have hpages := rtSizeToPages_pos hsize
    have hapart : ∀ b ∈ blocks, b.Apart (clearedBlock start size) := by
      intro b hb
      have hholds := h.holds b hb
      have hpos := hholds.pages_pos
      by_contra hover
      change ¬(b.start + b.pages ≤ start ∨ start + rtSizeToPages size ≤ b.start) at hover
      have hboth : ∃ k, b.Covers k ∧ start ≤ k ∧ k < start + rtSizeToPages size := by
        refine ⟨max b.start start, ?_⟩
        unfold PageBlock.Covers
        omega
      obtain ⟨k, hbk, hlow, hhigh⟩ := hboth
      have howned := hholds.owned k hbk
      have hunused := hfree (k - start) (Nat.sub_lt_left_of_lt_add hlow hhigh)
      rw [Nat.add_sub_cancel' hlow] at hunused
      rw [RtMemoryPageTable.owns, hunused] at howned
      cases howned
    refine ⟨start, ?_, hapart, h.allocated hsize hinside hapart⟩
    rw [runtimeAllocateMem, hlookup, hfit]
    change (_, RuntimeMemory.mk _ _) = _
    rw [rtSizeToPages_rtPagesToSize]
    rfl

end ProjectMu.RuntimeMem
