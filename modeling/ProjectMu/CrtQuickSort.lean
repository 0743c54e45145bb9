import ProjectMu.PivotSort
import ProjectMu.RuntimeMemHeap

/-!
# `qsort` in the runtime memory

`quickSortWorker` exchanges the elements of an array by copying them through a buffer of one
element, which `qsort` takes from the runtime memory. To the heap the whole call is one store into
the block of the array, of its elements in their order.
-/

namespace ProjectMu.CrtWrapper

open ByteCodec ByteRange PivotSort RuntimeMem

section Sorting

variable (compareFunction : List Byte → List Byte → ℤ) (elementSize buffer : ℕ)

/-- The three copies of an exchange. -/
def swapElements (a b : ℕ) (memory : Store Byte) : Store Byte :=
  let memory := memory.write buffer (memory.read a elementSize)
  let memory := memory.write a (memory.read b elementSize)
  memory.write b (memory.read buffer elementSize)

/-- A pass of the loop, with the next location to swap. -/
def swapPass (bufferToSort pivot : ℕ) (acc : Store Byte × ℕ) (loopCount : ℕ) : Store Byte × ℕ :=
  let element := bufferToSort + loopCount * elementSize
  if compareFunction (acc.1.read element elementSize) (acc.1.read pivot elementSize) ≤ 0 then
    (swapElements elementSize buffer (bufferToSort + acc.2 * elementSize) element acc.1, acc.2 + 1)
  else acc

def swapLoop (bufferToSort pivot n : ℕ) (memory : Store Byte) : Store Byte × ℕ :=
  (List.range n).foldl (swapPass compareFunction elementSize buffer bufferToSort pivot) (memory, 0)

theorem swapLoop_le (bufferToSort pivot n : ℕ) (memory : Store Byte) :
    (swapLoop compareFunction elementSize buffer bufferToSort pivot n memory).2 ≤ n := by
  induction n with
  | zero => exact le_rfl
  | succ n ih =>
    rw [swapLoop, List.range_succ, List.foldl_concat, swapPass]
    split_ifs
    · exact Nat.succ_le_succ ih
    · exact Nat.le_succ_of_le ih

def quickSortWorker (bufferToSort count : ℕ) (memory : Store Byte) : Store Byte :=
  if count < 2 ∨ elementSize < 1 then memory
  else
    let pivot := bufferToSort + (count - 1) * elementSize
    let swapped := swapLoop compareFunction elementSize buffer bufferToSort pivot (count - 1) memory
    let placed := swapElements elementSize buffer pivot (bufferToSort + swapped.2 * elementSize)
      swapped.1
    let left := quickSortWorker bufferToSort swapped.2 placed
    quickSortWorker (bufferToSort + (swapped.2 + 1) * elementSize) (count - swapped.2 - 1) left
termination_by count
decreasing_by
  all_goals
    have hle := swapLoop_le compareFunction elementSize buffer bufferToSort
      (bufferToSort + (count - 1) * elementSize) (count - 1) memory
    omega

end Sorting

/-- Nothing is sorted without the buffer. -/
def qsort (behind base num width : ℕ) (compare : List Byte → List Byte → ℤ) (s : RuntimeMemory) :
    RuntimeMemory :=
  match malloc behind width s with
  | (none, s) => s
  | (some buffer, s) =>
    free buffer { s with memory := quickSortWorker compare width buffer base num s.memory }

section Cells

variable {compareFunction : List Byte → List Byte → ℤ} {elementSize buffer base count : ℕ}
  {memory memory' memory'' : Store Byte} {f g : ℕ → List Byte} {first i j : ℕ}

/-- The elements of an array are cells of a sequence. -/
def Cells (elementSize base first count : ℕ) (f : ℕ → List Byte) (memory : Store Byte) : Prop :=
  ∀ i < count, memory.read (base + i * elementSize) elementSize = f (first + i)

/-- Nothing but the array and the buffer is changed. -/
def SameOutside (elementSize buffer base count : ℕ) (memory memory' : Store Byte) : Prop :=
  ∀ a, a < base ∨ base + count * elementSize ≤ a → a < buffer ∨ buffer + elementSize ≤ a →
    memory' a = memory a

def upTo (compareFunction : List Byte → List Byte → ℤ) (a b : List Byte) : Bool :=
  decide (compareFunction a b ≤ 0)

theorem SameOutside.trans (h : SameOutside elementSize buffer base count memory memory')
    (h' : SameOutside elementSize buffer base count memory' memory'') :
    SameOutside elementSize buffer base count memory memory'' :=
  fun a hout hbuffer => (h' a hout hbuffer).trans (h a hout hbuffer)

theorem SameOutside.widen {lo n : ℕ} (hin : lo + n ≤ count)
    (h : SameOutside elementSize buffer (base + lo * elementSize) n memory memory') :
    SameOutside elementSize buffer base count memory memory' := by
  intro a hout hbufferOut
  have hle : (lo + n) * elementSize ≤ count * elementSize := Nat.mul_le_mul_right _ hin
  rw [Nat.add_mul] at hle
  exact h a (by omega) hbufferOut

theorem element_inside (hi : i < count) :
    i * elementSize + elementSize ≤ count * elementSize := window_le hi le_rfl

/-- Different elements lie apart. -/
theorem element_apart (base : ℕ) (hij : i ≠ j) :
    Region.Disjoint ⟨base + i * elementSize, elementSize⟩ ⟨base + j * elementSize, elementSize⟩ := by
  rcases window_disjoint elementSize le_rfl hij with h | h
  · left
    dsimp only
    omega
  · right
    dsimp only
    omega

theorem read_write_apart {a b : ℕ} {d : List Byte}
    (h : Region.Disjoint ⟨a, d.length⟩ ⟨b, elementSize⟩) :
    (memory.write a d).read b elementSize = memory.read b elementSize :=
  (Store.agreeOn_write h).read le_rfl

theorem read_write_whole {a : ℕ} {d : List Byte} (h : d.length = elementSize) :
    (memory.write a d).read a elementSize = d := by
  rw [← h]
  exact Store.read_write_self ..

variable (hbuffer : Region.Disjoint ⟨buffer, elementSize⟩ ⟨base, count * elementSize⟩)
include hbuffer

theorem buffer_apart (hi : i < count) :
    Region.Disjoint ⟨buffer, elementSize⟩ ⟨base + i * elementSize, elementSize⟩ := by
  have hin : i * elementSize + elementSize ≤ count * elementSize := element_inside hi
  unfold Region.Disjoint at hbuffer ⊢
  dsimp only at hbuffer ⊢
  omega

/-- The three copies exchange two cells. -/
theorem cells_swapElements (hcells : Cells elementSize base first count f memory) (hi : i < count)
    (hj : j < count) :
    Cells elementSize base first count (PivotSort.swap (first + i) (first + j) f)
        (swapElements elementSize buffer (base + i * elementSize) (base + j * elementSize) memory) ∧
      SameOutside elementSize buffer base count memory
        (swapElements elementSize buffer (base + i * elementSize) (base + j * elementSize)
          memory) := by
  have hlen (memory : Store Byte) (a : ℕ) : (memory.read a elementSize).length = elementSize :=
    Store.length_read ..
  set saved := memory.write buffer (memory.read (base + i * elementSize) elementSize) with hsaved
  have hsavedCell (k : ℕ) (hk : k < count) :
      saved.read (base + k * elementSize) elementSize = f (first + k) := by
    rw [hsaved, read_write_apart (by rw [hlen]; exact buffer_apart hbuffer hk)]
    exact hcells k hk
  set copied := saved.write (base + i * elementSize)
    (saved.read (base + j * elementSize) elementSize) with hcopied
  have hcopiedBuffer : copied.read buffer elementSize = f (first + i) := by
    have hapart := Region.disjoint_comm.mp (buffer_apart hbuffer hi)
    rw [hcopied, read_write_apart (by rw [hlen]; exact hapart), hsaved, read_write_whole (hlen _ _)]
    exact hcells i hi
  have hdone : swapElements elementSize buffer (base + i * elementSize) (base + j * elementSize)
      memory = copied.write (base + j * elementSize) (copied.read buffer elementSize) := rfl
  rw [hdone]
  constructor
  · intro k hk
    by_cases hkj : k = j
    · rw [hkj, read_write_whole (hlen _ _), hcopiedBuffer, PivotSort.swap_right]
    · rw [read_write_apart (by rw [hlen]; exact element_apart base (Ne.symm hkj))]
      by_cases hki : k = i
      · rw [hki, hcopied, read_write_whole (hlen _ _), hsavedCell j hj, PivotSort.swap_left]
      · rw [hcopied, read_write_apart (by rw [hlen]; exact element_apart base (Ne.symm hki)),
          hsavedCell k hk, PivotSort.swap_of_ne (by omega) (by omega)]
  · intro a hout hbufferOut
    have hiIn : i * elementSize + elementSize ≤ count * elementSize := element_inside hi
    have hjIn : j * elementSize + elementSize ≤ count * elementSize := element_inside hj
    rw [Store.write_of_not_mem (by rw [hlen]; omega), hcopied,
      Store.write_of_not_mem (by rw [hlen]; omega), hsaved,
      Store.write_of_not_mem (by rw [hlen]; omega)]

/-- The loop scans the cells. -/
theorem cells_swapLoop {n : ℕ} (hn : n + 1 = count)
    (hcells : Cells elementSize base first count f memory) {m : ℕ} (hm : m ≤ n) :
    let looped := swapLoop compareFunction elementSize buffer base (base + n * elementSize) m memory
    let scanned := scan (upTo compareFunction) (first + n) first m f
    scanned.2 = first + looped.2 ∧ Cells elementSize base first count scanned.1 looped.1 ∧
      SameOutside elementSize buffer base count memory looped.1 := by
  induction m with
  | zero => exact ⟨rfl, hcells, fun _ _ _ => rfl⟩
  | succ m ih =>
    obtain ⟨hnext, hcell, hsame⟩ := ih (by omega)
    intro looped scanned
    have hlooped : looped = swapPass compareFunction elementSize buffer base
        (base + n * elementSize)
        (swapLoop compareFunction elementSize buffer base (base + n * elementSize) m memory) m := by
      change (List.range (m + 1)).foldl _ _ = _
      rw [List.range_succ, List.foldl_concat]
      rfl
    have hscanned : scanned = scanStep (upTo compareFunction) (first + n)
        (scan (upTo compareFunction) (first + n) first m f) (first + m) := by
      change (List.range' first (m + 1)).foldl _ _ = _
      rw [List.range'_concat, List.foldl_concat, Nat.one_mul]
      rfl
    have hle := swapLoop_le compareFunction elementSize buffer base (base + n * elementSize) m
      memory
    rw [hlooped, hscanned]
    generalize swapLoop compareFunction elementSize buffer base (base + n * elementSize) m memory =
      before at hnext hcell hsame hle ⊢
    generalize scan (upTo compareFunction) (first + n) first m f = cells at hnext hcell ⊢
    rw [swapPass, scanStep, upTo, hcell m (by omega), hcell n (by omega)]
    by_cases hcompare : compareFunction (cells.1 (first + m)) (cells.1 (first + n)) ≤ 0
    · rw [if_pos hcompare, if_pos (decide_eq_true hcompare), hnext]
      have hswapped := cells_swapElements hbuffer hcell (show before.2 < count by omega)
        (show m < count by omega)
      exact ⟨rfl, hswapped.1, hsame.trans hswapped.2⟩
    · rw [if_neg hcompare, if_neg (by rwa [decide_eq_true_eq])]
      exact ⟨hnext, hcell, hsame⟩

/-- The pivot is placed as in the scan. -/
theorem cells_placed {n : ℕ} (hn : n + 1 = count)
    (hcells : Cells elementSize base first count f memory) :
    let looped := swapLoop compareFunction elementSize buffer base (base + n * elementSize) n memory
    let placed := swapElements elementSize buffer (base + n * elementSize)
      (base + looped.2 * elementSize) looped.1
    let parted := partition (upTo compareFunction) first n f
    looped.2 ≤ n ∧ parted.2 = first + looped.2 ∧
      Cells elementSize base first count parted.1 placed ∧
      SameOutside elementSize buffer base count memory placed := by
  intro looped placed parted
  have hle : looped.2 ≤ n := swapLoop_le ..
  obtain ⟨hnext, hcell, hsame⟩ := @cells_swapLoop compareFunction _ _ _ _ _ _ _ hbuffer n hn hcells
    n le_rfl
  have hplaced := cells_swapElements hbuffer hcell (show n < count by omega)
    (show looped.2 < count by omega)
  rw [← hnext] at hplaced
  exact ⟨hle, hnext, hplaced.1, hsame.trans hplaced.2⟩

theorem buffer_apart_part {lo n : ℕ} (hin : lo + n ≤ count) :
    Region.Disjoint ⟨buffer, elementSize⟩ ⟨base + lo * elementSize, n * elementSize⟩ := by
  have hle : (lo + n) * elementSize ≤ count * elementSize := Nat.mul_le_mul_right _ hin
  rw [Nat.add_mul] at hle
  unfold Region.Disjoint at hbuffer ⊢
  dsimp only at hbuffer ⊢
  omega

/-- What is done to the elements of a part keeps the other elements. -/
theorem Cells.widen {lo n : ℕ} (hcells : Cells elementSize base first count f memory)
    (hpart : Cells elementSize (base + lo * elementSize) (first + lo) n g memory')
    (hsame : SameOutside elementSize buffer (base + lo * elementSize) n memory memory')
    (hrearranges : Rearranges (first + lo) n f g) :
    Cells elementSize base first count g memory' := by
  intro i hi
  by_cases hinside : lo ≤ i ∧ i < lo + n
  · have hcell := hpart (i - lo) (by omega)
    rw [Nat.add_assoc, Nat.add_assoc, ← Nat.add_mul, Nat.add_sub_cancel' hinside.1] at hcell
    exact hcell
  · rw [hrearranges.outside (by omega), ← hcells i hi]
    apply Store.read_congr
    intro a hlow hhigh
    have happart := buffer_apart hbuffer hi
    have hside : i * elementSize + elementSize ≤ lo * elementSize ∨
        (lo + n) * elementSize ≤ i * elementSize := by
      rcases Nat.lt_or_ge i lo with hlt | hge
      · left
        calc i * elementSize + elementSize = (i + 1) * elementSize := by ring
          _ ≤ lo * elementSize := Nat.mul_le_mul_right _ hlt
      · exact .inr (Nat.mul_le_mul_right _ (by omega))
    rw [Nat.add_mul] at hside
    unfold Region.Disjoint at happart
    dsimp only at happart
    exact hsame a (by omega) (by omega)

omit hbuffer in
theorem quickSortWorker_cells (hsize : 0 < elementSize)
    (hbuffer : Region.Disjoint ⟨buffer, elementSize⟩ ⟨base, count * elementSize⟩)
    (hcells : Cells elementSize base first count f memory) :
    Cells elementSize base first count (sort (upTo compareFunction) first count f)
        (quickSortWorker compareFunction elementSize buffer base count memory) ∧
      SameOutside elementSize buffer base count memory
        (quickSortWorker compareFunction elementSize buffer base count memory) := by
  induction count using Nat.strong_induction_on generalizing base first memory f with | _ count ih =>
  rw [quickSortWorker, sort]
  by_cases hsmall : count < 2
  · rw [if_pos hsmall, if_pos (Or.inl hsmall)]
    exact ⟨hcells, fun _ _ _ => rfl⟩
  · rw [if_neg hsmall, if_neg (show ¬(count < 2 ∨ elementSize < 1) by omega)]
    dsimp only
    obtain ⟨hle, hplace, hplacedCells, hplacedSame⟩ := @cells_placed compareFunction _ _ _ _ _ _ _
      hbuffer (count - 1) (by omega) hcells
    generalize swapLoop compareFunction elementSize buffer base
      (base + (count - 1) * elementSize) (count - 1) memory = looped at *
    generalize swapElements elementSize buffer (base + (count - 1) * elementSize)
      (base + looped.2 * elementSize) looped.1 = placed at *
    generalize partition (upTo compareFunction) first (count - 1) f = parted at *
    have hpart : parted.2 - first = looped.2 := by omega
    rw [hpart, hplace, Nat.add_assoc first]
    -- the elements in front of the pivot
    have hbase : base + 0 * elementSize = base := by rw [Nat.zero_mul, Nat.add_zero]
    have hleftBuffer := buffer_apart_part hbuffer (show 0 + looped.2 ≤ count by omega)
    rw [hbase] at hleftBuffer
    obtain ⟨hleft, hleftSame⟩ := ih looped.2 (by omega) hleftBuffer
      (fun i hi => hplacedCells i (by omega))
    have hleftRearranges := rearranges_sort (upTo compareFunction) first looped.2 parted.1
    set left := quickSortWorker compareFunction elementSize buffer base looped.2 placed with hleftDef
    set leftCells := sort (upTo compareFunction) first looped.2 parted.1 with hleftCells
    have hwhole : Cells elementSize base first count leftCells left :=
      hplacedCells.widen hbuffer (by rwa [hbase]) (by rwa [hbase])
        (show Rearranges (first + 0) looped.2 _ _ from hleftRearranges)
    have hwholeSame : SameOutside elementSize buffer base count placed left :=
      SameOutside.widen (show 0 + looped.2 ≤ count by omega) (by rwa [hbase])
    -- those behind it
    have hrest : looped.2 + 1 + (count - looped.2 - 1) ≤ count := by omega
    have hrightCells : Cells elementSize (base + (looped.2 + 1) * elementSize)
        (first + (looped.2 + 1)) (count - looped.2 - 1) leftCells left := by
      intro i hi
      have hcell := hwhole (looped.2 + 1 + i) (by omega)
      rw [Nat.add_mul, ← Nat.add_assoc, ← Nat.add_assoc] at hcell
      exact hcell
    obtain ⟨hright, hrightSame⟩ := ih (count - looped.2 - 1) (by omega)
      (buffer_apart_part hbuffer hrest) hrightCells
    exact ⟨hwhole.widen hbuffer hright hrightSame (rearranges_sort _ _ _ _),
      (hplacedSame.trans hwholeSame).trans (hrightSame.widen hrest)⟩

end Cells

/-- The elements of an array, from its bytes. -/
def elements (width num : ℕ) (data : List Byte) : List (List Byte) :=
  (List.range num).map fun i => slice data (i * width) width

/-- Elements in the order of the comparison, if it is one, and the same ones in any case. -/
structure SortedFrom (compare : List Byte → List Byte → ℤ) (width num : ℕ)
    (before after : List Byte) : Prop where
  length : after.length = num * width
  perm : (elements width num after).Perm (elements width num before)
  sorted : Orders (upTo compare) →
    (elements width num after).Pairwise fun a b => compare a b ≤ 0

variable {compare : List Byte → List Byte → ℤ} {width num buffer base : ℕ} {memory : Store Byte}

theorem elements_read (memory : Store Byte) (base width num : ℕ) :
    elements width num (memory.read base (num * width)) =
      (List.range' 0 num).map fun i => memory.read (base + i * width) width := by
  rw [elements, List.range_eq_range']
  apply List.map_congr_left
  intro i hi
  exact Store.slice_read _ _ _ _ _ (element_inside (by simpa using hi))

theorem sortedFrom_quickSortWorker (hwidth : 0 < width)
    (hbuffer : Region.Disjoint ⟨buffer, width⟩ ⟨base, num * width⟩) :
    SortedFrom compare width num (memory.read base (num * width))
        ((quickSortWorker compare width buffer base num memory).read base (num * width)) ∧
      SameOutside width buffer base num memory
        (quickSortWorker compare width buffer base num memory) := by
  have hcells : Cells width base 0 num (fun i => memory.read (base + i * width) width) memory := by
    intro i _
    rw [Nat.zero_add]
  obtain ⟨hsorted, hsame⟩ := @quickSortWorker_cells compare _ _ _ _ _ _ _ hwidth hbuffer hcells
  set cells := sort (upTo compare) 0 num fun i => memory.read (base + i * width) width with hcellsDef
  have helements : elements width num
      ((quickSortWorker compare width buffer base num memory).read base (num * width)) =
        (List.range' 0 num).map cells := by
    rw [elements_read]
    apply List.map_congr_left
    intro i hi
    rw [hsorted i (by simpa using hi), Nat.zero_add]
  refine ⟨⟨Store.length_read .., ?_, fun ho => ?_⟩, hsame⟩
  · rw [helements, elements_read]
    exact (rearranges_sort _ _ _ _).perm
  · rw [helements, List.pairwise_map]
    refine List.Pairwise.imp_of_mem (fun {i j} hi hj hij => ?_) List.pairwise_lt_range'
    have hlast := (List.mem_range'_1.mp hj).2
    exact of_decide_eq_true (sortedIn_sort ho 0 num _ i j (Nat.zero_le _) hij hlast)

/-- Reading a block that was changed in one place only. -/
theorem read_changed {memory memory' : Store Byte} {off k m n : ℕ} (hk : k + m ≤ n)
    (hsame : ∀ a, off ≤ a → a < off + n → a < off + k ∨ off + k + m ≤ a → memory' a = memory a) :
    memory'.read off n = splice (memory.read off n) k (memory'.read (off + k) m) := by
  ext1 i
  rw [Store.getElem?_read, getElem?_splice _ _ _ _ (by rw [Store.length_read]; omega),
    Store.getElem?_read, Store.getElem?_read, Store.length_read]
  by_cases hi : i < n
  · rw [if_pos hi]
    split_ifs with hlow hhigh hin
    · rw [hsame (off + i) (by omega) (by omega) (by omega)]
    · rw [show off + k + (i - k) = off + i by omega]
    · omega
    · rw [hsame (off + i) (by omega) (by omega) (by omega)]
  · rw [if_neg hi, if_neg (by omega), if_neg (by omega), if_neg hi]

variable {s : RuntimeMemory} {blocks : List PageBlock} {b : PageBlock} {offset : ℕ}

/-- With a buffer apart from all blocks, sorting an array inside of one changes that array only. -/
theorem quickSortWorker_blocks (hs : Describes s blocks) (hb : b ∈ blocks) (hwidth : 0 < width)
    (hin : offset + num * width ≤ b.content.length)
    (hcontent : memory.read (b.pointer s.table.dataAreaBase) b.content.length = b.content)
    (hbuffer : ∀ c ∈ blocks,
      Region.Disjoint ⟨buffer, width⟩ (c.region s.table.dataAreaBase c.content.length)) :
    let p := b.pointer s.table.dataAreaBase
    let sorted := quickSortWorker compare width buffer (p + offset) num memory
    (∀ c ∈ blocks, c ≠ b →
      sorted.AgreeOn memory (c.region s.table.dataAreaBase c.content.length)) ∧
    ∃ data, SortedFrom compare width num (slice b.content offset (num * width)) data ∧
      sorted.read p b.content.length = splice b.content offset data := by
  intro p sorted
  have hblock := hbuffer b hb
  unfold Region.Disjoint PageBlock.region at hblock
  change buffer + width ≤ p ∨ p + b.content.length ≤ buffer at hblock
  have harray : Region.Disjoint ⟨buffer, width⟩ ⟨p + offset, num * width⟩ := by
    unfold Region.Disjoint
    dsimp only
    omega
  obtain ⟨hsortedFrom, hsame⟩ := @sortedFrom_quickSortWorker compare _ _ _ _ memory hwidth harray
  refine ⟨fun c hc hne a hlow hhigh => ?_, sorted.read (p + offset) (num * width), ?_, ?_⟩
  · have hapart : Region.Disjoint (b.region s.table.dataAreaBase b.content.length)
        (c.region s.table.dataAreaBase c.content.length) :=
      (hs.apart.forall hb hc hne.symm).disjoint (hs.holds b hb).length_le (hs.holds c hc).length_le
    have hbytes := hbuffer c hc
    unfold Region.Disjoint PageBlock.region at hapart hbytes
    unfold PageBlock.region at hlow hhigh
    dsimp only at hapart hbytes hlow hhigh
    exact hsame a (by omega) (by omega)
  · have hslice : memory.read (p + offset) (num * width) =
        slice b.content offset (num * width) := by
      rw [← Store.slice_read _ _ _ _ _ hin, hcontent]
    rwa [hslice] at hsortedFrom
  · have hread := read_changed hin fun a (hlow : p ≤ a) hhigh hout => hsame a hout (by omega)
    rwa [hcontent] at hread

/-- Without a buffer nothing happens. -/
theorem qsort_null {behind bufferToSort : ℕ}
    (hnone : runtimeAllocateMem behind width s = (none, s)) :
    qsort behind bufferToSort num width compare s = s := by
  rw [qsort, malloc, hnone]

/-- The buffer is given back, and what has changed is the block of the array. -/
theorem represents_sorted (hs : Describes s blocks) (hb : b ∈ blocks) {behind start : ℕ}
    (hwidth : 0 < width) (hin : offset + num * width ≤ b.content.length)
    (hcall : runtimeAllocateMem behind width s =
      (some ((clearedBlock start width).pointer s.table.dataAreaBase), s.allocated start width))
    (hapart : ∀ c ∈ blocks, c.Apart (clearedBlock start width))
    (hallocated : Describes (s.allocated start width) (clearedBlock start width :: blocks)) :
    let p := b.pointer s.table.dataAreaBase
    ∃ data, SortedFrom compare width num (slice b.content offset (num * width)) data ∧
      Represents (qsort behind (p + offset) num width compare s)
        ((p, ⟨b.heapBlock.capacity, splice b.content offset data⟩) ::
          (heapOf s.table.dataAreaBase blocks).free p) := by
  intro p
  set new := clearedBlock start width with hnew
  set taken := s.allocated start width with htaken
  set q := new.pointer s.table.dataAreaBase with hq
  set sorted := quickSortWorker compare width q (p + offset) num taken.memory with hsorted
  have hbuffer : ∀ c ∈ blocks,
      Region.Disjoint ⟨q, width⟩ (c.region s.table.dataAreaBase c.content.length) := by
    intro c hc
    have hsides : new.Apart c := (hapart c hc).symm
    exact hsides.disjoint (le_rtPagesToSize width) (hs.holds c hc).length_le
  have hcontent : taken.memory.read p b.content.length = b.content :=
    (hallocated.holds b (List.mem_cons_of_mem _ hb)).content_eq
  obtain ⟨hother, data, hdata, hread⟩ := @quickSortWorker_blocks compare width num q taken.memory
    s blocks b offset hs hb hwidth hin hcontent hbuffer
  -- the table after the buffer was freed is the one from before, as far as the blocks go
  obtain ⟨hbase, -, hmemory⟩ := table_free_eq hallocated List.mem_cons_self
  change (runtimeFreeMem q taken).table.dataAreaBase = s.table.dataAreaBase at hbase
  change (runtimeFreeMem q taken).memory = taken.memory at hmemory
  have hfreed := hallocated.free List.mem_cons_self
  change Describes (runtimeFreeMem q taken) (without start (new :: blocks)) at hfreed
  rw [(without_cleared hs hwidth hapart).2] at hfreed
  have hdone : qsort behind (p + offset) num width compare s =
      { runtimeFreeMem q taken with memory := sorted } := by
    rw [qsort, malloc, hcall]
    change free q { taken with memory := sorted } = _
    have hnonzero : q ≠ 0 := hallocated.pointer_ne_zero new
    rw [free, if_neg hnonzero]
    rfl
  have hstored := hfreed.store hb (by rwa [hbase, hmemory])
    (hs.holds b hb).length_le
  rw [hbase] at hstored
  refine ⟨data, hdata, ?_⟩
  rw [hdone, ← heapOf_without, ← hread]
  refine ⟨_, hstored, ?_⟩
  change _ = heapOf (runtimeFreeMem q taken).table.dataAreaBase _
  rw [hbase]
  rfl

/-- In every state that the callers can reach, `qsort` on an array inside a block fails for want of
room for a buffer and does nothing, or puts the elements in order and changes nothing else that
the callers can see. -/
theorem qsort_sorts {scratchBuffer scratchBufferSize : ℕ}
    (hinit : initializeScratchMemory scratchBuffer scratchBufferSize memory = .ok s)
    {calls : List (HeapCall × ℕ)} (hclient : ClientValid s [] calls) (behind : ℕ)
    (compare : List Byte → List Byte → ℤ) (hwidth : 0 < width) :
    let reached := (heapRun calls s).2
    ∃ h, HeapRun s.table.dataArea [] (heapRun calls s).1 h ∧ Represents reached h ∧
      ∀ p block, (p, block) ∈ h → ∀ offset num, offset + num * width ≤ block.content.length →
        let done := qsort behind (p + offset) num width compare reached
        (done = reached ∧ (malloc behind width reached).1 = none ∧
            ¬h.Room s.table.dataArea (2 * reserved width)) ∨
          ∃ data, SortedFrom compare width num (slice block.content offset (num * width)) data ∧
            Represents done
              ((p, ⟨block.capacity, splice block.content offset data⟩) :: h.free p) := by
  intro reached
  obtain ⟨hfresh, -, -⟩ := initializeScratchMemory_represents hinit
  obtain ⟨harea, h, hrun, blocks, hs, hblocks⟩ := heapRun_simulates hfresh hclient
  refine ⟨h, hrun, ⟨blocks, hs, hblocks⟩, fun p block hmem offset num hin => ?_⟩
  subst hblocks
  obtain ⟨b, hb, heq⟩ := List.mem_map.mp hmem
  obtain ⟨rfl, rfl⟩ := Prod.mk.inj heq
  rcases hs.allocate behind hwidth with ⟨hnone, hfull⟩ | ⟨start, hcall, hapart, hallocated⟩
  · left
    refine ⟨qsort_null hnone, congrArg Prod.fst hnone, ?_⟩
    rw [← harea]
    exact hs.not_room hfull
  · exact .inr (represents_sorted hs hb hwidth hin hcall hapart hallocated)

/-- The state after the array of three bytes was stored. -/
theorem qsort_sorts_stored :
    ∃ s, initializeScratchMemory 0x1000 (minRequiredBlocks * 1024) (fun _ => 0) = .ok s ∧
      let calls : List (HeapCall × ℕ) := [(.malloc 3, 0), (.store 38248 0 [3, 1, 2], 0)]
      let reached := (heapRun calls s).2
      let compare : List Byte → List Byte → ℤ := fun a b => (a.headD 0).toNat - (b.headD 0).toNat
      ∃ h, HeapRun s.table.dataArea [] (heapRun calls s).1 h ∧ Represents reached h ∧
        ∀ p block, (p, block) ∈ h → ∀ offset num, offset + num * 1 ≤ block.content.length →
          let done := qsort 0 (p + offset) num 1 compare reached
          (done = reached ∧ (malloc 0 1 reached).1 = none ∧
              ¬h.Room s.table.dataArea (2 * reserved 1)) ∨
            ∃ data, SortedFrom compare 1 num (slice block.content offset (num * 1)) data ∧
              Represents done
                ((p, ⟨block.capacity, splice block.content offset data⟩) :: h.free p) := by
  obtain ⟨s, hinit⟩ : ∃ s, initializeScratchMemory 0x1000 (minRequiredBlocks * 1024)
      (fun _ => 0) = .ok s := ⟨_, rfl⟩
  have hclient : ClientValid s [] [(.malloc 3, 0), (.store 38248 0 [3, 1, 2], 0)] := by
    obtain rfl := Except.ok.inj hinit
    refine ⟨Nat.succ_pos _, fun h' hstep => ⟨?_, fun _ _ => trivial⟩⟩
    have hfirst : HeapStep _ [] (.malloc 3) (some 38248) h' := hstep
    cases hfirst with
    | malloc hfresh => exact ⟨_, List.mem_cons_self, le_rfl⟩
  exact ⟨s, hinit, qsort_sorts hinit hclient 0 _ Nat.one_pos⟩

end ProjectMu.CrtWrapper
