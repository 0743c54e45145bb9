import ProjectMu.ByteCodec
import ProjectMu.GptFormat
import ProjectMu.SkipSearch

/-!
# The runtime memory of the crypto library

A scratch buffer holds a page table and the pages that it describes. An allocation takes
consecutive free pages, looking from behind the last allocation first, and a page remembers
where its allocation starts. The loops that skip used pages do not look at the end of the table,
so what stands behind it may be taken for more used pages.
-/

namespace ProjectMu.RuntimeMem

open ByteCodec ByteRange SkipSearch

def rtPageSize : ℕ := 0x200
def rtPageMask : ℕ := 0x1FF
def rtPageShift : ℕ := 9

def rtSizeToPages (a : ℕ) : ℕ := a >>> rtPageShift + if a &&& rtPageMask ≠ 0 then 1 else 0

def rtPagesToSize (a : ℕ) : ℕ := a <<< rtPageShift

def rtPageFree : BitVec 32 := 0
def rtPageUsed : BitVec 32 := 1

def minRequiredBlocks : ℕ := 1100

structure RtMemoryPageEntry where
  startPageOffset : ℕ
  pageFlag : BitVec 32
  deriving DecidableEq, Repr

/-- `sizeof (RT_MEMORY_PAGE_ENTRY)` and `sizeof (RT_MEMORY_PAGE_TABLE)` -/
def pageEntrySize : ℕ := 16
def pageTableSize : ℕ := 40

def RtMemoryPageEntry.isUsed (e : RtMemoryPageEntry) : Bool := e.pageFlag &&& rtPageUsed != 0

structure RtMemoryPageTable where
  pageCount : ℕ
  lastEmptyPageOffset : ℕ
  dataAreaBase : ℕ
  pages : ℕ → RtMemoryPageEntry

/-- The page table and the memory with the data area. -/
structure RuntimeMemory where
  table : RtMemoryPageTable
  memory : Store Byte

def initializeScratchMemory (scratchBuffer scratchBufferSize : ℕ) (memory : Store Byte) :
    Except EfiError RuntimeMemory :=
  if scratchBuffer = 0 then .error .invalidParameter
  else if scratchBufferSize < minRequiredBlocks * 1024 then .error (.driver 0x8000000000000005)
  else
    let memory := memory.write scratchBuffer (List.replicate scratchBufferSize 0xFF)
    let memorySize := scratchBufferSize - pageTableSize + pageEntrySize
    let pageCount := memorySize / (rtPageSize + pageEntrySize)
    .ok ⟨{ pageCount := pageCount
           lastEmptyPageOffset := 0
           dataAreaBase := scratchBuffer + pageTableSize + (pageCount - 1) * pageEntrySize
           pages := fun _ => ⟨0, rtPageFree⟩ }, memory⟩

namespace RtMemoryPageTable

variable (t : RtMemoryPageTable)

/-- The used bit of the entry at an index. Behind the table, `behind` entries read as used. -/
def flagged (behind i : ℕ) : Bool :=
  if i < t.pageCount then (t.pages i).isUsed else decide (i < t.pageCount + behind)

/-- How many of the pages from `index` on are free, counted up to `reqPages`. -/
def checkPages (reqPages index : ℕ) : ℕ :=
  skipWhile (fun subIndex => decide (subIndex < reqPages) && !(t.pages (subIndex + index)).isUsed)
    reqPages 0

/-- Behind the free pages at `index` and the used ones that follow. -/
def skipPages (behind reqPages index : ℕ) : ℕ :=
  index + skipWhile (fun subIndex => t.flagged behind (subIndex + index)) (t.pageCount + behind)
    (t.checkPages reqPages index)

/-- The same for the second search, which counts no further than its limit. -/
def skipPagesBelow (behind reqPages limit index : ℕ) : ℕ :=
  index + skipWhile
    (fun subIndex => decide (subIndex < limit) && t.flagged behind (subIndex + index)) limit
    (t.checkPages reqPages index)

def lookupFreeMemRegion (behind allocationSize : ℕ) : Option ℕ :=
  let startPageIndex := rtSizeToPages t.lastEmptyPageOffset
  let reqPages := rtSizeToPages allocationSize
  if reqPages > t.pageCount then none
  else
    let found (index : ℕ) : Bool := t.checkPages reqPages index == reqPages
    -- `Index <= PageCount - ReqPages`
    let limit := t.pageCount - reqPages + 1
    match skipSearch found (t.skipPages behind reqPages) limit limit startPageIndex with
    | some index => some (rtPagesToSize index)
    | none =>
      if reqPages > startPageIndex then none
      else
        let limit := startPageIndex - reqPages
        (skipSearch found (t.skipPagesBelow behind reqPages limit) limit limit 0).map rtPagesToSize

/-- The loop that marks the pages of an allocation. -/
def markPages (startPage allocOffset : ℕ) : ℕ → ℕ → RtMemoryPageEntry
  | 0 => t.pages
  | n + 1 => Function.update (markPages startPage allocOffset n) (startPage + n)
      ⟨allocOffset, (markPages startPage allocOffset n (startPage + n)).pageFlag ||| rtPageUsed⟩

/-- Whether a page is used by the allocation at an offset. -/
def owns (startOffset i : ℕ) : Bool :=
  (t.pages i).isUsed && (t.pages i).startPageOffset == startOffset

def freePage (i : ℕ) : RtMemoryPageTable :=
  { t with
    pages := Function.update t.pages i
      ⟨0, ((t.pages i).pageFlag &&& ~~~rtPageUsed) ||| rtPageFree⟩ }

end RtMemoryPageTable

def freePages (startOffset : ℕ) : ℕ → ℕ → RtMemoryPageTable → RtMemoryPageTable
  | 0, _, t => t
  | n + 1, i, t =>
    if i < t.pageCount then
      if t.owns startOffset i then freePages startOffset n (i + 1) (t.freePage i) else t
    else t

def runtimeAllocateMem (behind allocationSize : ℕ) (s : RuntimeMemory) :
    Option ℕ × RuntimeMemory :=
  match s.table.lookupFreeMemRegion behind allocationSize with
  | none => (none, s)
  | some allocOffset =>
    let reqPages := rtSizeToPages allocationSize
    let allocPtr := s.table.dataAreaBase + allocOffset
    let startPage := rtSizeToPages allocOffset
    (some allocPtr,
      ⟨{ s.table with
          pages := s.table.markPages startPage allocOffset reqPages
          lastEmptyPageOffset := allocOffset + rtPagesToSize reqPages },
        s.memory.write allocPtr (List.replicate allocationSize 0)⟩)

def RtMemoryPageTable.startPageIndex (t : RtMemoryPageTable) (startOffset : ℕ) : ℕ :=
  rtSizeToPages (t.pages (rtSizeToPages startOffset)).startPageOffset

def runtimeFreeMem (buffer : ℕ) (s : RuntimeMemory) : RuntimeMemory :=
  let startOffset := buffer - s.table.dataAreaBase
  { s with
    table :=
      freePages startOffset s.table.pageCount (s.table.startPageIndex startOffset) s.table }

def malloc (behind size : ℕ) (s : RuntimeMemory) : Option ℕ × RuntimeMemory :=
  runtimeAllocateMem behind size s

/-- The pages of the allocation that a buffer starts. -/
def RtMemoryPageTable.countPages (t : RtMemoryPageTable) (startOffset : ℕ) : ℕ :=
  skipWhile (fun i => decide (i < t.pageCount) && t.owns startOffset i) t.pageCount
    (t.startPageIndex startOffset) - t.startPageIndex startOffset

def realloc (behind ptr size : ℕ) (s : RuntimeMemory) : Option ℕ × RuntimeMemory :=
  if ptr = 0 then malloc behind size s
  else
    let pageCount := s.table.countPages (ptr - s.table.dataAreaBase)
    if size ≤ rtPagesToSize pageCount then (some ptr, s)
    else
      match runtimeAllocateMem behind size s with
      | (none, s) => (none, s)
      | (some newPtr, s) =>
        let copied := s.memory.write newPtr (s.memory.read ptr (rtPagesToSize pageCount))
        (some newPtr, runtimeFreeMem ptr { s with memory := copied })

def free (ptr : ℕ) (s : RuntimeMemory) : RuntimeMemory :=
  if ptr = 0 then s else runtimeFreeMem ptr s

theorem rtPagesToSize_eq (a : ℕ) : rtPagesToSize a = a * 512 := Nat.shiftLeft_eq a 9

theorem rtSizeToPages_eq (a : ℕ) : rtSizeToPages a = (a + 511) / 512 := by
  have hmask : a &&& rtPageMask = a % 512 := Nat.and_two_pow_sub_one_eq_mod a 9
  have hshift : a >>> rtPageShift = a / 512 := Nat.shiftRight_eq_div_pow a 9
  rw [rtSizeToPages, hmask, hshift]
  split_ifs <;> omega

@[simp] theorem rtSizeToPages_rtPagesToSize (a : ℕ) : rtSizeToPages (rtPagesToSize a) = a := by
  rw [rtSizeToPages_eq, rtPagesToSize_eq]
  omega

/-- An allocation fits into its pages. -/
theorem le_rtPagesToSize (a : ℕ) : a ≤ rtPagesToSize (rtSizeToPages a) := by
  rw [rtSizeToPages_eq, rtPagesToSize_eq]
  omega

theorem rtSizeToPages_pos {a : ℕ} (h : 0 < a) : 0 < rtSizeToPages a := by
  rw [rtSizeToPages_eq]
  omega

end ProjectMu.RuntimeMem
