import ProjectMu.RuntimeMemBlocks

/-!
# The runtime memory is a heap

To its callers the memory is a heap: a finite map from pointers to blocks, to which an allocation
adds a cleared block, from which a free removes one and in which `realloc` resizes one or moves
it. It gives memory whenever twice of what is asked for is left in one piece. As long as nobody
asks for a block of no bytes and pointers are those that were handed out, every run of calls is a
run of that heap, whose blocks lie apart in the scratch buffer.
-/

namespace ProjectMu.RuntimeMem

open ByteCodec ByteRange

/-- How many bytes are kept for a block, and what its caller's part of them holds. -/
structure HeapBlock where
  capacity : ℕ
  content : List Byte
  deriving DecidableEq, Repr

/-- Blocks by pointer. -/
abbrev Heap := List (ℕ × HeapBlock)

def Heap.free (h : Heap) (p : ℕ) : Heap := h.filter fun entry => entry.1 != p

/-- A pointer that no block has. -/
def Heap.Fresh (h : Heap) (p : ℕ) : Prop := p ≠ 0 ∧ ∀ entry ∈ h, entry.1 ≠ p

/-- Somewhere in the area so many bytes in a row are kept for nobody. -/
def Heap.Room (h : Heap) (area : Region) (n : ℕ) : Prop :=
  ∃ q, area.offset ≤ q ∧ q + n ≤ area.offset + area.size ∧
    ∀ entry ∈ h, Region.Disjoint ⟨q, n⟩ ⟨entry.1, entry.2.capacity⟩

/-- What is kept for an allocation: whole pages. -/
def reserved (size : ℕ) : ℕ := rtPagesToSize (rtSizeToPages size)

def HeapBlock.cleared (size : ℕ) : HeapBlock := ⟨reserved size, List.replicate size 0⟩

inductive HeapCall
  | malloc (size : ℕ)
  | free (ptr : ℕ)
  | realloc (ptr size : ℕ)
  -- the caller stores into a block
  | store (ptr offset : ℕ) (data : List Byte)

/-- What a call may do to a heap in an area, and the pointer it may return. It fails only if there
is no room for twice the size. -/
inductive HeapStep (area : Region) : Heap → HeapCall → Option ℕ → Heap → Prop
  | mallocNull {h : Heap} {size : ℕ} (hfull : ¬h.Room area (2 * reserved size)) :
      HeapStep area h (.malloc size) none h
  | malloc {h : Heap} {p size : ℕ} (hfresh : h.Fresh p) :
      HeapStep area h (.malloc size) (some p) ((p, .cleared size) :: h)
  | free {h : Heap} {p : ℕ} : HeapStep area h (.free p) none (h.free p)
  | reallocNew {h h' : Heap} {size : ℕ} {result : Option ℕ}
      (hstep : HeapStep area h (.malloc size) result h') :
      HeapStep area h (.realloc 0 size) result h'
  | reallocNull {h : Heap} {p size : ℕ} {block : HeapBlock} (hmem : (p, block) ∈ h)
      (hsize : block.capacity < size) (hfull : ¬h.Room area (2 * reserved size)) :
      HeapStep area h (.realloc p size) none h
  | reallocHere {h : Heap} {p : ℕ} {block : HeapBlock} {content : List Byte}
      (hmem : (p, block) ∈ h) (hsize : content.length ≤ block.capacity)
      (hkeep : content.take block.content.length = block.content.take content.length) :
      HeapStep area h (.realloc p content.length) (some p)
        ((p, ⟨block.capacity, content⟩) :: h.free p)
  | reallocMoved {h : Heap} {p q : ℕ} {block : HeapBlock} {content : List Byte}
      (hmem : (p, block) ∈ h) (hsize : block.capacity < content.length) (hfresh : h.Fresh q)
      (hkeep : content.take block.content.length = block.content.take content.length) :
      HeapStep area h (.realloc p content.length) (some q)
        ((q, ⟨reserved content.length, content⟩) :: h.free p)
  | store {h : Heap} {p offset : ℕ} {block : HeapBlock} {data : List Byte}
      (hmem : (p, block) ∈ h) (hin : offset + data.length ≤ block.content.length) :
      HeapStep area h (.store p offset data) none
        ((p, ⟨block.capacity, splice block.content offset data⟩) :: h.free p)

/-- What the callers keep to: blocks of some bytes, and pointers that they were given. -/
def ValidCall (h : Heap) : HeapCall → Prop
  | .malloc size => 0 < size
  | .free p => p = 0 ∨ ∃ block, (p, block) ∈ h
  | .realloc p size => p = 0 ∧ 0 < size ∨ ∃ block, (p, block) ∈ h
  | .store p offset data =>
    ∃ block, (p, block) ∈ h ∧ offset + data.length ≤ block.content.length

/-- A call, with what stands behind the page table at that time. -/
def heapCall (behind : ℕ) (s : RuntimeMemory) : HeapCall → Option ℕ × RuntimeMemory
  | .malloc size => malloc behind size s
  | .free p => (none, free p s)
  | .realloc p size => realloc behind p size s
  | .store p offset data => (none, { s with memory := s.memory.write (p + offset) data })

def heapRun : List (HeapCall × ℕ) → RuntimeMemory →
    List (HeapCall × Option ℕ) × RuntimeMemory
  | [], s => ([], s)
  | (call, behind) :: calls, s =>
    let done := heapCall behind s call
    let rest := heapRun calls done.2
    ((call, done.1) :: rest.1, rest.2)

inductive HeapRun (area : Region) : Heap → List (HeapCall × Option ℕ) → Heap → Prop
  | nil {h : Heap} : HeapRun area h [] h
  | cons {h h' h'' : Heap} {call : HeapCall} {result : Option ℕ}
      {calls : List (HeapCall × Option ℕ)} (hstep : HeapStep area h call result h')
      (hrun : HeapRun area h' calls h'') : HeapRun area h ((call, result) :: calls) h''

/-- The pages of a table, as the bytes that they are. -/
def RtMemoryPageTable.dataArea (t : RtMemoryPageTable) : Region :=
  ⟨t.dataAreaBase, rtPagesToSize t.pageCount⟩

/-- The callers keep to the rules, as far as they can know the heap from the answers. -/
def ClientValid : RuntimeMemory → Heap → List (HeapCall × ℕ) → Prop
  | _, _, [] => True
  | s, h, (call, behind) :: calls =>
    ValidCall h call ∧ ∀ h', HeapStep s.table.dataArea h call (heapCall behind s call).1 h' →
      ClientValid (heapCall behind s call).2 h' calls

def PageBlock.heapBlock (b : PageBlock) : HeapBlock := ⟨rtPagesToSize b.pages, b.content⟩

/-- The heap that a list of blocks is. -/
def heapOf (base : ℕ) (blocks : List PageBlock) : Heap :=
  blocks.map fun b => (b.pointer base, b.heapBlock)

def Represents (s : RuntimeMemory) (h : Heap) : Prop :=
  ∃ blocks, Describes s blocks ∧ h = heapOf s.table.dataAreaBase blocks

variable {s s' : RuntimeMemory} {blocks : List PageBlock} {b c : PageBlock} {h : Heap}
  {base behind p size : ℕ}

theorem pointer_inj (heq : b.pointer base = c.pointer base) : b.start = c.start := by
  unfold PageBlock.pointer at heq
  rw [rtPagesToSize_eq, rtPagesToSize_eq] at heq
  omega

theorem heapOf_without (base : ℕ) (b : PageBlock) (blocks : List PageBlock) :
    heapOf base (without b.start blocks) = (heapOf base blocks).free (b.pointer base) := by
  rw [heapOf, heapOf, Heap.free, without, List.filter_map]
  congr 1
  apply List.filter_congr
  intro c _
  rw [Bool.eq_iff_iff, bne_iff_ne, Function.comp_apply, bne_iff_ne]
  exact not_congr ⟨fun heq => by rw [PageBlock.pointer, PageBlock.pointer, heq], pointer_inj⟩

theorem Describes.pointer_ne_zero (hs : Describes s blocks) (b : PageBlock) :
    b.pointer s.table.dataAreaBase ≠ 0 := by
  have hpos := hs.base_pos
  unfold PageBlock.pointer
  omega

/-- The pointer of new pages is fresh. -/
theorem Describes.fresh (hs : Describes s blocks) (hapart : ∀ c ∈ blocks, c.Apart b)
    (hb : 0 < b.pages) :
    (heapOf s.table.dataAreaBase blocks).Fresh (b.pointer s.table.dataAreaBase) := by
  refine ⟨hs.pointer_ne_zero b, fun block hblock heq => ?_⟩
  obtain ⟨c, hc, rfl⟩ := List.mem_map.mp hblock
  have hstart := pointer_inj heq
  have hpos := (hs.holds c hc).pages_pos
  have hsides := hapart c hc
  unfold PageBlock.Apart at hsides
  omega

theorem without_eq_self {start : ℕ} (hne : ∀ c ∈ blocks, c.start ≠ start) :
    without start blocks = blocks := by
  rw [without, List.filter_eq_self]
  intro c hc
  exact bne_iff_ne.mpr (hne c hc)

/-- Without a block of new pages there are the blocks from before. -/
theorem without_cleared (hs : Describes s blocks) {start : ℕ} (hsize : 0 < size)
    (hapart : ∀ c ∈ blocks, c.Apart (clearedBlock start size)) :
    (∀ c ∈ blocks, c.start ≠ start) ∧
      without start (clearedBlock start size :: blocks) = blocks := by
  have hne (c : PageBlock) (hc : c ∈ blocks) : c.start ≠ start := by
    intro heq
    have hpos := (hs.holds c hc).pages_pos
    have hposNew := rtSizeToPages_pos hsize
    have hsides : c.start + c.pages ≤ start ∨ start + rtSizeToPages size ≤ c.start := hapart c hc
    omega
  refine ⟨hne, ?_⟩
  rw [without, List.filter_cons_of_neg (by simp [clearedBlock])]
  exact without_eq_self hne

theorem take_read (memory : Store Byte) (off n m : ℕ) :
    (memory.read off n).take m = memory.read off (min m n) := by
  ext1 i
  rw [List.getElem?_take, Store.getElem?_read, Store.getElem?_read]
  split_ifs <;> first | rfl | omega

/-- Writing inside a range is overwriting its contents. -/
theorem read_write_inside (memory : Store Byte) {off k n : ℕ} {data : List Byte}
    (hk : k + data.length ≤ n) :
    (memory.write (off + k) data).read off n = splice (memory.read off n) k data := by
  ext1 i
  rw [Store.getElem?_read, getElem?_splice _ _ _ _ (by rw [Store.length_read]; omega),
    Store.getElem?_read]
  by_cases hin : k ≤ i ∧ i < k + data.length
  · rw [if_pos (by omega), if_neg (by omega), if_pos hin.2, Store.write, if_pos (by omega),
      show off + i - (off + k) = i - k by omega,
      List.getElem?_eq_getElem (show i - k < data.length by omega)]
    rfl
  · rw [Store.write_of_not_mem (by omega)]
    split_ifs <;> first | rfl | omega

/-- Where the heap has room, pages are free. -/
theorem Describes.fits_of_room (hs : Describes s blocks) {n : ℕ}
    (hroom : (heapOf s.table.dataAreaBase blocks).Room s.table.dataArea (rtPagesToSize n)) :
    ∃ page, page + n ≤ s.table.pageCount ∧ s.table.fits n page = true := by
  obtain ⟨q, hlow, hhigh, hfree⟩ := hroom
  unfold RtMemoryPageTable.dataArea at hlow hhigh
  dsimp only at hlow hhigh
  rw [rtPagesToSize_eq, rtPagesToSize_eq] at hhigh
  refine ⟨(q - s.table.dataAreaBase) / 512, by omega, ?_⟩
  rw [RtMemoryPageTable.fits, decide_eq_true_iff]
  intro k hk
  rw [Bool.eq_false_iff]
  intro hused
  -- a block that covers one of the pages would reach into the gap
  obtain ⟨b, hb, hstart, hend⟩ := hs.used _ (by omega) hused
  have hdisjoint := hfree _ (List.mem_map_of_mem hb)
  unfold Region.Disjoint PageBlock.pointer PageBlock.heapBlock at hdisjoint
  simp only [rtPagesToSize_eq] at hdisjoint
  omega

/-- Without a place of twice the pages there is no room for twice the size. -/
theorem Describes.not_room (hs : Describes s blocks)
    (hnone : ∀ page, page + 2 * rtSizeToPages size ≤ s.table.pageCount →
      s.table.fits (2 * rtSizeToPages size) page = false) :
    ¬(heapOf s.table.dataAreaBase blocks).Room s.table.dataArea (2 * reserved size) := by
  intro hroom
  have htwice : 2 * reserved size = rtPagesToSize (2 * rtSizeToPages size) := by
    rw [reserved, rtPagesToSize_eq, rtPagesToSize_eq]
    ring
  rw [htwice] at hroom
  obtain ⟨page, hinside, hfits⟩ := hs.fits_of_room hroom
  rw [hnone page hinside] at hfits
  cases hfits

/-- A call is a step of the heap, and leaves the page table where it is. -/
def Simulates (s : RuntimeMemory) (h : Heap) (call : HeapCall) (done : Option ℕ × RuntimeMemory) :
    Prop :=
  done.2.table.dataAreaBase = s.table.dataAreaBase ∧
    done.2.table.pageCount = s.table.pageCount ∧
    ∃ h', HeapStep s.table.dataArea h call done.1 h' ∧ Represents done.2 h'

theorem simulates_malloc (hs : Describes s blocks) (behind : ℕ) (hsize : 0 < size) :
    Simulates s (heapOf s.table.dataAreaBase blocks) (.malloc size) (malloc behind size s) := by
  rw [malloc]
  rcases hs.allocate behind hsize with ⟨hnone, hfull⟩ | ⟨start, hcall, hapart, hdescribes⟩
  · rw [hnone]
    exact ⟨rfl, rfl, _, .mallocNull (hs.not_room hfull), blocks, hs, rfl⟩
  · rw [hcall]
    exact ⟨rfl, rfl, _, .malloc (hs.fresh hapart (rtSizeToPages_pos hsize)), _, hdescribes, rfl⟩

theorem table_free_eq (hs : Describes s blocks) (hb : b ∈ blocks) :
    (runtimeFreeMem (b.pointer s.table.dataAreaBase) s).table.dataAreaBase =
        s.table.dataAreaBase ∧
      (runtimeFreeMem (b.pointer s.table.dataAreaBase) s).table.pageCount = s.table.pageCount ∧
      (runtimeFreeMem (b.pointer s.table.dataAreaBase) s).memory = s.memory := by
  rw [hs.runtimeFreeMem_eq hb]
  exact ⟨rfl, rfl, rfl⟩

theorem simulates_free (hs : Describes s blocks)
    (hp : p = 0 ∨ ∃ block, (p, block) ∈ heapOf s.table.dataAreaBase blocks) :
    Simulates s (heapOf s.table.dataAreaBase blocks) (.free p) (none, free p s) := by
  rw [free]
  split_ifs with hzero
  · have hkeep : (heapOf s.table.dataAreaBase blocks).free p =
        heapOf s.table.dataAreaBase blocks := by
      rw [Heap.free, List.filter_eq_self]
      intro block hblock
      obtain ⟨c, -, rfl⟩ := List.mem_map.mp hblock
      rw [hzero]
      exact bne_iff_ne.mpr (hs.pointer_ne_zero c)
    exact ⟨rfl, rfl, _, .free, blocks, hs, hkeep⟩
  · obtain ⟨block, hmem⟩ := hp.resolve_left hzero
    obtain ⟨b, hb, heq⟩ := List.mem_map.mp hmem
    obtain ⟨rfl, rfl⟩ := Prod.mk.inj heq
    obtain ⟨hbase, hcount, -⟩ := table_free_eq hs hb
    refine ⟨hbase, hcount, _, .free, _, hs.free hb, ?_⟩
    rw [hbase, heapOf_without]

theorem simulates_store (hs : Describes s blocks) {offset : ℕ} {block : HeapBlock}
    {data : List Byte} (hmem : (p, block) ∈ heapOf s.table.dataAreaBase blocks)
    (hin : offset + data.length ≤ block.content.length) :
    Simulates s (heapOf s.table.dataAreaBase blocks) (.store p offset data)
      (none, { s with memory := s.memory.write (p + offset) data }) := by
  refine ⟨rfl, rfl, _, .store hmem hin, ?_⟩
  obtain ⟨b, hb, heq⟩ := List.mem_map.mp hmem
  obtain ⟨rfl, rfl⟩ := Prod.mk.inj heq
  have hholds := hs.holds b hb
  change offset + data.length ≤ b.content.length at hin
  have hother : ∀ c ∈ blocks, c ≠ b →
      (s.memory.write (b.pointer s.table.dataAreaBase + offset) data).AgreeOn s.memory
        (c.region s.table.dataAreaBase c.content.length) := by
    intro c hc hne
    apply Store.agreeOn_write
    have hapart : b.Apart c := hs.apart.forall hb hc hne.symm
    have hdisjoint : (b.region s.table.dataAreaBase b.content.length).Disjoint
        (c.region s.table.dataAreaBase c.content.length) :=
      hapart.disjoint hholds.length_le (hs.holds c hc).length_le
    unfold Region.Disjoint PageBlock.region at hdisjoint ⊢
    dsimp only at hdisjoint ⊢
    omega
  refine ⟨_, hs.store hb hother hholds.length_le, ?_⟩
  rw [read_write_inside _ hin, hholds.content_eq]
  change _ = _ :: heapOf s.table.dataAreaBase (without b.start blocks)
  rw [heapOf_without]
  rfl

/-- A block that is large enough stays where it is. -/
theorem simulates_realloc_inPlace (hs : Describes s blocks) (hb : b ∈ blocks)
    (hsize : size ≤ rtPagesToSize b.pages) :
    Simulates s (heapOf s.table.dataAreaBase blocks)
      (.realloc (b.pointer s.table.dataAreaBase) size)
      (some (b.pointer s.table.dataAreaBase), s) := by
  set p := b.pointer s.table.dataAreaBase with hp
  have hholds := hs.holds b hb
  have hlen : (s.memory.read p size).length = size := Store.length_read ..
  have hstep : HeapStep s.table.dataArea (heapOf s.table.dataAreaBase blocks) (.realloc p size)
      (some p) ((p, ⟨rtPagesToSize b.pages, s.memory.read p size⟩) ::
        (heapOf s.table.dataAreaBase blocks).free p) := by
    have hkeep : (s.memory.read p size).take b.content.length =
        b.content.take (s.memory.read p size).length := by
      conv_rhs => rw [← hholds.content_eq, ← hp]
      rw [take_read, take_read, hlen, Nat.min_comm]
    have hmem : (p, b.heapBlock) ∈ heapOf s.table.dataAreaBase blocks :=
      List.mem_map.mpr ⟨b, hb, rfl⟩
    have hrealloc := @HeapStep.reallocHere s.table.dataArea _ _ _ _ hmem
      (show (s.memory.read p size).length ≤ rtPagesToSize b.pages by rwa [hlen]) hkeep
    rw [hlen] at hrealloc
    exact hrealloc
  have hother : ∀ c ∈ blocks, c ≠ b →
      s.memory.AgreeOn s.memory (c.region s.table.dataAreaBase c.content.length) :=
    fun _ _ _ => Store.AgreeOn.refl _ _
  refine ⟨rfl, rfl, _, hstep, _, hs.store hb hother hsize, ?_⟩
  rw [← heapOf_without]
  rfl

/-- A block that is too small moves with what it holds. -/
theorem simulates_realloc_move (hs : Describes s blocks) (hb : b ∈ blocks) {start : ℕ}
    (hsize : rtPagesToSize b.pages < size)
    (hapart : ∀ c ∈ blocks, c.Apart (clearedBlock start size))
    (hnew : Describes (s.allocated start size) (clearedBlock start size :: blocks)) :
    Simulates s (heapOf s.table.dataAreaBase blocks)
      (.realloc (b.pointer s.table.dataAreaBase) size)
      (some ((clearedBlock start size).pointer s.table.dataAreaBase),
        runtimeFreeMem (b.pointer s.table.dataAreaBase)
          { s.allocated start size with
            memory := (s.allocated start size).memory.write
              ((clearedBlock start size).pointer s.table.dataAreaBase)
              ((s.allocated start size).memory.read (b.pointer s.table.dataAreaBase)
                (rtPagesToSize b.pages)) }) := by
  set new := clearedBlock start size with hnewDef
  set p := b.pointer s.table.dataAreaBase with hp
  set q := new.pointer s.table.dataAreaBase with hq
  set old := (s.allocated start size).memory.read p (rtPagesToSize b.pages) with hold
  set copied := (s.allocated start size).memory.write q old with hcopied
  have hlen : old.length = rtPagesToSize b.pages := Store.length_read ..
  have hbMem : b ∈ new :: blocks := List.mem_cons_of_mem _ hb
  have hpages : rtPagesToSize b.pages ≤ rtPagesToSize new.pages :=
    hsize.le.trans (le_rtPagesToSize size)
  have hother : ∀ c ∈ new :: blocks, c ≠ new →
      copied.AgreeOn (s.allocated start size).memory
        (c.region (s.allocated start size).table.dataAreaBase c.content.length) := by
    intro c hc hne
    apply Store.agreeOn_write
    rw [hlen]
    have hsides : new.Apart c := hnew.apart.forall List.mem_cons_self hc hne.symm
    exact hsides.disjoint hpages (hnew.holds c hc).length_le
  have hstored := hnew.store List.mem_cons_self hother (le_rtPagesToSize size)
  obtain ⟨hne, hwithout⟩ := without_cleared hs (show 0 < size by omega) hapart
  change Describes _ (_ :: without start (new :: blocks)) at hstored
  rw [hwithout] at hstored
  set moved : PageBlock := { new with content := copied.read q size } with hmoved
  have hmovedIn : Describes { s.allocated start size with memory := copied } (moved :: blocks) :=
    hstored
  have hdone := hmovedIn.free (List.mem_cons_of_mem moved hb)
  have hkeep : without b.start (moved :: blocks) = moved :: without b.start blocks := by
    rw [without, List.filter_cons_of_pos]
    · rfl
    · exact bne_iff_ne.mpr (hne b hb).symm
  rw [hkeep] at hdone
  obtain ⟨hbase, hcount, -⟩ := table_free_eq hmovedIn (List.mem_cons_of_mem moved hb)
  refine ⟨hbase, hcount, (q, ⟨reserved size, copied.read q size⟩) ::
    (heapOf s.table.dataAreaBase blocks).free p, ?_, _, hdone, ?_⟩
  · have hcontent : (copied.read q size).take b.content.length =
        b.content.take (copied.read q size).length := by
      have hle := (hs.holds b hb).length_le
      have hself : copied.read q old.length = old := Store.read_write_self ..
      have hprefix : copied.read q b.content.length = b.content := by
        have htake := take_read copied q old.length b.content.length
        rw [hself, Nat.min_eq_left (by omega), hold, take_read, Nat.min_eq_left (by omega)] at htake
        exact htake.symm.trans (hnew.holds b hbMem).content_eq
      rw [take_read, Nat.min_eq_left (by omega), hprefix, Store.length_read,
        List.take_of_length_le (by omega)]
    have hmem : (p, b.heapBlock) ∈ heapOf s.table.dataAreaBase blocks :=
      List.mem_map.mpr ⟨b, hb, rfl⟩
    have hlenNew : (copied.read q size).length = size := Store.length_read ..
    have hrealloc := @HeapStep.reallocMoved s.table.dataArea _ _ _ _ _ hmem
      (show rtPagesToSize b.pages < (copied.read q size).length by rwa [hlenNew])
      (hs.fresh hapart (rtSizeToPages_pos (by omega))) hcontent
    rw [hlenNew] at hrealloc
    exact hrealloc
  · rw [← heapOf_without]
    exact congrArg (fun base => heapOf base (moved :: without b.start blocks)) hbase.symm

theorem simulates_realloc (hs : Describes s blocks) (behind : ℕ)
    (hp : p = 0 ∧ 0 < size ∨ ∃ block, (p, block) ∈ heapOf s.table.dataAreaBase blocks) :
    Simulates s (heapOf s.table.dataAreaBase blocks) (.realloc p size)
      (realloc behind p size s) := by
  by_cases hzero : p = 0
  · have hsize : 0 < size := by
      rcases hp with ⟨-, hsize⟩ | ⟨block, hmem⟩
      · exact hsize
      · obtain ⟨b, -, heq⟩ := List.mem_map.mp hmem
        exact absurd ((congrArg Prod.fst heq).trans hzero) (hs.pointer_ne_zero b)
    obtain ⟨hbase, hcount, h', hstep, hs'⟩ := simulates_malloc hs behind hsize
    rw [realloc, if_pos hzero, hzero]
    exact ⟨hbase, hcount, h', .reallocNew hstep, hs'⟩
  · obtain ⟨block, hmem⟩ := hp.resolve_left fun h => hzero h.1
    obtain ⟨b, hb, heq⟩ := List.mem_map.mp hmem
    obtain ⟨rfl, rfl⟩ := Prod.mk.inj heq
    have hoffset : b.pointer s.table.dataAreaBase - s.table.dataAreaBase =
        rtPagesToSize b.start := Nat.add_sub_cancel_left ..
    rw [realloc, if_neg hzero, hoffset, hs.countPages_eq hb]
    dsimp only
    by_cases hfits : size ≤ rtPagesToSize b.pages
    · rw [if_pos hfits]
      exact simulates_realloc_inPlace hs hb hfits
    · rw [if_neg hfits]
      have hgrows : rtPagesToSize b.pages < size := Nat.lt_of_not_le hfits
      rcases hs.allocate behind (show 0 < size by omega) with
        ⟨hnone, hfull⟩ | ⟨start, hcall, hapart, hdescribes⟩
      · rw [hnone]
        exact ⟨rfl, rfl, _, .reallocNull hmem hgrows (hs.not_room hfull), blocks, hs, rfl⟩
      · rw [hcall]
        exact simulates_realloc_move hs hb hgrows hapart hdescribes

/-- Each call within the rules is a step of the heap. -/
theorem simulates_heapCall (hs : Represents s h) {call : HeapCall} (hcall : ValidCall h call)
    (behind : ℕ) : Simulates s h call (heapCall behind s call) := by
  obtain ⟨blocks, hdescribes, rfl⟩ := hs
  cases call with
  | malloc size => exact simulates_malloc hdescribes behind hcall
  | free p => exact simulates_free hdescribes hcall
  | realloc p size => exact simulates_realloc hdescribes behind hcall
  | store p offset data =>
    obtain ⟨block, hmem, hin⟩ := hcall
    exact simulates_store hdescribes hmem hin

theorem heapRun_simulates {calls : List (HeapCall × ℕ)} (hs : Represents s h)
    (hclient : ClientValid s h calls) :
    (heapRun calls s).2.table.dataArea = s.table.dataArea ∧
      ∃ h', HeapRun s.table.dataArea h (heapRun calls s).1 h' ∧
        Represents (heapRun calls s).2 h' := by
  induction calls generalizing s h with
  | nil => exact ⟨rfl, h, .nil, hs⟩
  | cons call calls ih =>
    obtain ⟨call, behind⟩ := call
    obtain ⟨hbase, hcount, h', hstep, hs'⟩ := simulates_heapCall hs hclient.1 behind
    have harea : (heapCall behind s call).2.table.dataArea = s.table.dataArea := by
      rw [RtMemoryPageTable.dataArea, hbase, hcount]
      rfl
    obtain ⟨hkept, h'', hrun, hs''⟩ := ih hs' (hclient.2 h' hstep)
    rw [harea] at hkept hrun
    exact ⟨hkept, h'', .cons hstep hrun, hs''⟩

/-- The blocks of a heap lie apart in an area, and their contents are what the memory holds. -/
structure HeapIn (memory : Store Byte) (area : Region) (h : Heap) : Prop where
  inside : ∀ entry ∈ h,
    area.offset ≤ entry.1 ∧ entry.1 + entry.2.capacity ≤ area.offset + area.size
  apart : h.Pairwise fun a b =>
    a.1 ≠ b.1 ∧ Region.Disjoint ⟨a.1, a.2.capacity⟩ ⟨b.1, b.2.capacity⟩
  contents : ∀ entry ∈ h, entry.2.content.length ≤ entry.2.capacity ∧
    memory.read entry.1 entry.2.content.length = entry.2.content

theorem heapIn_of_represents (hs : Represents s h) : HeapIn s.memory s.table.dataArea h := by
  obtain ⟨blocks, hdescribes, rfl⟩ := hs
  refine ⟨fun entry hentry => ?_, ?_, fun entry hentry => ?_⟩
  · obtain ⟨b, hb, rfl⟩ := List.mem_map.mp hentry
    have hinside := (hdescribes.holds b hb).inside
    unfold PageBlock.pointer PageBlock.heapBlock RtMemoryPageTable.dataArea
    simp only [rtPagesToSize_eq]
    omega
  · rw [heapOf, List.pairwise_map]
    refine hdescribes.apart.imp_of_mem fun {a b} ha hb hapart => ⟨fun heq => ?_, ?_⟩
    · have hpos := (hdescribes.holds a ha).pages_pos
      have hpos' := (hdescribes.holds b hb).pages_pos
      have hstart := pointer_inj heq
      unfold PageBlock.Apart at hapart
      omega
    · exact hapart.disjoint le_rfl le_rfl
  · obtain ⟨b, hb, rfl⟩ := List.mem_map.mp hentry
    exact ⟨(hdescribes.holds b hb).length_le, (hdescribes.holds b hb).content_eq⟩

/-- A fresh table has only free pages, and the data area lies in the scratch buffer behind it. -/
theorem initializeScratchMemory_represents {scratchBuffer scratchBufferSize : ℕ}
    {memory : Store Byte}
    (hinit : initializeScratchMemory scratchBuffer scratchBufferSize memory = .ok s) :
    Represents s [] ∧
      s.table.dataArea.offset =
        scratchBuffer + pageTableSize + (s.table.pageCount - 1) * pageEntrySize ∧
      s.table.dataArea.offset + s.table.dataArea.size ≤ scratchBuffer + scratchBufferSize := by
  unfold initializeScratchMemory at hinit
  split_ifs at hinit with hnull hsmall
  obtain rfl := Except.ok.inj hinit
  have hcount : 0 < (scratchBufferSize - pageTableSize + pageEntrySize) /
      (rtPageSize + pageEntrySize) := by
    unfold minRequiredBlocks at hsmall
    unfold pageTableSize pageEntrySize rtPageSize
    omega
  refine ⟨⟨[], ⟨?_, ⟨0, Nat.zero_le _, rfl⟩, ?_, by simp, List.Pairwise.nil⟩, rfl⟩, rfl, ?_⟩
  · dsimp only
    unfold pageTableSize
    omega
  · intro i _ hused
    change (RtMemoryPageEntry.mk 0 rtPageFree).isUsed = true at hused
    exact absurd hused (by decide)
  · unfold RtMemoryPageTable.dataArea
    dsimp only
    rw [rtPagesToSize_eq]
    unfold minRequiredBlocks at hsmall
    unfold pageTableSize pageEntrySize rtPageSize at *
    omega

/-- From a fresh table, every run of calls within the rules is a run of a heap in the scratch
buffer behind the table, whose blocks lie apart there and hold what the heap says. -/
theorem heapRun_refines {scratchBuffer scratchBufferSize : ℕ} {memory : Store Byte}
    (hinit : initializeScratchMemory scratchBuffer scratchBufferSize memory = .ok s)
    {calls : List (HeapCall × ℕ)} (hclient : ClientValid s [] calls) :
    let area := s.table.dataArea
    scratchBuffer + pageTableSize + (s.table.pageCount - 1) * pageEntrySize ≤ area.offset ∧
      area.offset + area.size ≤ scratchBuffer + scratchBufferSize ∧
      ∃ h, HeapRun area [] (heapRun calls s).1 h ∧ HeapIn (heapRun calls s).2.memory area h := by
  intro area
  obtain ⟨hfresh, hfirst, hlast⟩ := initializeScratchMemory_represents hinit
  obtain ⟨harea, h, hrun, hs⟩ := heapRun_simulates hfresh hclient
  have hin := heapIn_of_represents hs
  rw [harea] at hin
  exact ⟨hfirst.ge, hlast, h, hrun, hin⟩

/-- A block of two pages is moved to a larger place. -/
theorem heapRun_refines_moved :
    ∃ s, initializeScratchMemory 0x1000 (minRequiredBlocks * 1024) (fun _ => 0) = .ok s ∧
      ∃ h, HeapRun s.table.dataArea []
          (heapRun [(.malloc 1000, 0), (.realloc 38248 2000, 3)] s).1 h ∧
        HeapIn (heapRun [(.malloc 1000, 0), (.realloc 38248 2000, 3)] s).2.memory
          s.table.dataArea h := by
  obtain ⟨s, hinit⟩ : ∃ s, initializeScratchMemory 0x1000 (minRequiredBlocks * 1024)
      (fun _ => 0) = .ok s := ⟨_, rfl⟩
  have hclient : ClientValid s [] [(.malloc 1000, 0), (.realloc 38248 2000, 3)] := by
    obtain rfl := Except.ok.inj hinit
    refine ⟨Nat.succ_pos _, fun h' hstep => ⟨.inr ?_, fun _ _ => trivial⟩⟩
    have hfirst : HeapStep _ [] (.malloc 1000) (some 38248) h' := hstep
    cases hfirst with
    | malloc hfresh => exact ⟨_, List.mem_cons_self⟩
  exact ⟨s, hinit, (heapRun_refines hinit hclient).2.2⟩

theorem Describes.malloc_eq (hs : Describes s blocks) (behind size : ℕ) :
    let reqPages := rtSizeToPages size
    let cursor := rtSizeToPages s.table.lastEmptyPageOffset
    cursor ≤ s.table.pageCount ∧
      (malloc behind size s).1 =
        ((s.table.nextFit reqPages cursor).filter (RtMemoryPageTable.tried reqPages cursor)).map
          fun page => s.table.dataAreaBase + rtPagesToSize page := by
  intro reqPages cursor
  have hcursor : cursor ≤ s.table.pageCount := by
    obtain ⟨k, hk, hlast⟩ := hs.cursor
    change rtSizeToPages s.table.lastEmptyPageOffset ≤ _
    rwa [hlast, rtSizeToPages_rtPagesToSize]
  refine ⟨hcursor, ?_⟩
  rw [malloc, runtimeAllocateMem, lookupFreeMemRegion_eq s.table behind size hcursor]
  cases (s.table.nextFit reqPages cursor).filter (RtMemoryPageTable.tried reqPages cursor) <;> rfl

theorem nextFit_cursor {t : RtMemoryPageTable} {reqPages cursor : ℕ}
    (hinside : cursor + reqPages ≤ t.pageCount) (hfits : t.fits reqPages cursor = true) :
    (t.nextFit reqPages cursor).filter (RtMemoryPageTable.tried reqPages cursor) =
      some cursor := by
  have hrange : List.range' cursor (t.pageCount - reqPages + 1 - cursor) =
      cursor :: List.range' (cursor + 1) (t.pageCount - reqPages - cursor) := by
    rw [show t.pageCount - reqPages + 1 - cursor = t.pageCount - reqPages - cursor + 1 by omega]
    rfl
  have htried : RtMemoryPageTable.tried reqPages cursor cursor = true :=
    decide_eq_true (.inl le_rfl)
  rw [RtMemoryPageTable.nextFit, if_pos (by omega), hrange, List.cons_append,
    List.find?_cons_of_pos hfits, Option.filter_some, if_pos htried]

/-- What fits at the cursor is taken there. -/
theorem runtimeAllocateMem_cursor (behind : ℕ) {cursor : ℕ}
    (hlast : s.table.lastEmptyPageOffset = rtPagesToSize cursor)
    (hinside : cursor + rtSizeToPages size ≤ s.table.pageCount)
    (hfits : s.table.fits (rtSizeToPages size) cursor = true) :
    runtimeAllocateMem behind size s =
      (some ((clearedBlock cursor size).pointer s.table.dataAreaBase),
        s.allocated cursor size) := by
  have hcursor : rtSizeToPages s.table.lastEmptyPageOffset = cursor := by
    rw [hlast, rtSizeToPages_rtPagesToSize]
  have hlookup := lookupFreeMemRegion_eq s.table behind size (by rw [hcursor]; omega)
  rw [hcursor, nextFit_cursor hinside hfits] at hlookup
  rw [runtimeAllocateMem, hlookup]
  change (_, RuntimeMemory.mk _ _) = _
  rw [rtSizeToPages_rtPagesToSize]
  rfl

/-- In every state that the callers can reach, an allocation takes the place that a plain next fit
finds, except where that crosses the cursor or ends at it. It fails exactly if no other place
fits. -/
theorem malloc_nextFit {scratchBuffer scratchBufferSize : ℕ} {memory : Store Byte}
    (hinit : initializeScratchMemory scratchBuffer scratchBufferSize memory = .ok s)
    {calls : List (HeapCall × ℕ)} (hclient : ClientValid s [] calls) (behind size : ℕ) :
    let reached := (heapRun calls s).2
    let reqPages := rtSizeToPages size
    let cursor := rtSizeToPages reached.table.lastEmptyPageOffset
    (malloc behind size reached).1 =
        ((reached.table.nextFit reqPages cursor).filter fun page =>
            decide (cursor ≤ page ∨ page + reqPages < cursor)).map
          (fun page => reached.table.dataAreaBase + rtPagesToSize page) ∧
      ((malloc behind size reached).1 = none ↔
        ∀ page, page + reqPages ≤ reached.table.pageCount →
          reached.table.fits reqPages page = true →
            page < cursor ∧ cursor ≤ page + reqPages) := by
  intro reached reqPages cursor
  obtain ⟨hfresh, -, -⟩ := initializeScratchMemory_represents hinit
  obtain ⟨-, h, -, blocks, hs, -⟩ := heapRun_simulates hfresh hclient
  obtain ⟨hcursor, hmalloc⟩ := hs.malloc_eq behind size
  refine ⟨hmalloc, ?_⟩
  rw [hmalloc, Option.map_eq_none_iff, RtMemoryPageTable.nextFit_tried_eq_none hcursor]

/-- A block of 1200 pages was given back. Nothing is reserved any more, but none of the places for
such a block is tried: the first loop starts at page 1200, and the second one gives up at once. -/
theorem malloc_nextFit_missed :
    ∃ s, initializeScratchMemory 0x1000 (minRequiredBlocks * 1024) (fun _ => 0) = .ok s ∧
      let reached := (heapRun [(.malloc 614400, 0), (.free 38248, 0)] s).2
      Represents reached [] ∧ (malloc 3 614400 reached).1 = none := by
  obtain ⟨s, hinit⟩ : ∃ s, initializeScratchMemory 0x1000 (minRequiredBlocks * 1024)
      (fun _ => 0) = .ok s := ⟨_, rfl⟩
  obtain ⟨⟨blocks, hs, hnil⟩, -, -⟩ := initializeScratchMemory_represents hinit
  obtain rfl : blocks = [] := List.map_eq_nil_iff.mp hnil.symm
  have hpages : rtSizeToPages 614400 = 1200 := by decide
  have hcount : s.table.pageCount = 2133 := by
    obtain rfl := Except.ok.inj hinit
    rfl
  have hfits : s.table.fits (rtSizeToPages 614400) 0 = true := by
    obtain rfl := Except.ok.inj hinit
    have hfree : (RtMemoryPageEntry.mk 0 rtPageFree).isUsed = false := by decide
    exact decide_eq_true fun _ _ => hfree
  have hlast : s.table.lastEmptyPageOffset = rtPagesToSize 0 := by
    obtain rfl := Except.ok.inj hinit
    rfl
  have hbase : (clearedBlock 0 614400).pointer s.table.dataAreaBase = 38248 := by
    obtain rfl := Except.ok.inj hinit
    rfl
  set taken := s.allocated 0 614400 with htaken
  have hmalloc : heapCall 0 s (.malloc 614400) = (some 38248, taken) := by
    rw [← hbase]
    exact runtimeAllocateMem_cursor 0 hlast (by rw [hpages, hcount]; norm_num) hfits
  have hdescribes : Describes taken [clearedBlock 0 614400] :=
    hs.allocated (by norm_num) (by rw [hpages, hcount]; norm_num) (by simp)
  have hrun : (heapRun [(.malloc 614400, 0), (.free 38248, 0)] s).2 = free 38248 taken := by
    rw [heapRun, hmalloc]
    rfl
  have hfree : free 38248 taken =
      { taken with table := freedRange taken.table 0 (0 + rtSizeToPages 614400) } := by
    have hfreed := hdescribes.runtimeFreeMem_eq List.mem_cons_self
    change runtimeFreeMem ((clearedBlock 0 614400).pointer s.table.dataAreaBase) taken = _ at hfreed
    rw [hbase] at hfreed
    exact hfreed
  have hclient : ClientValid s [] [(.malloc 614400, 0), (.free 38248, 0)] := by
    refine ⟨show 0 < 614400 by norm_num, fun h' hstep => ?_⟩
    rw [hmalloc] at hstep ⊢
    cases hstep with
    | malloc hfresh => exact ⟨.inr ⟨_, List.mem_cons_self⟩, fun _ _ => trivial⟩
  refine ⟨s, hinit, ?_, ?_⟩
  · have hfreed := hdescribes.free List.mem_cons_self
    change Describes (runtimeFreeMem ((clearedBlock 0 614400).pointer s.table.dataAreaBase) taken)
      (without 0 [clearedBlock 0 614400]) at hfreed
    rw [hbase] at hfreed
    rw [hrun]
    exact ⟨_, hfreed, rfl⟩
  · refine (malloc_nextFit hinit hclient 3 614400).2.mpr fun page hinside _ => ?_
    rw [hrun, hfree] at hinside ⊢
    change page + rtSizeToPages 614400 ≤ s.table.pageCount at hinside
    change page < rtSizeToPages (rtPagesToSize 0 + rtPagesToSize (rtSizeToPages 614400)) ∧
      rtSizeToPages (rtPagesToSize 0 + rtPagesToSize (rtSizeToPages 614400)) ≤
        page + rtSizeToPages 614400
    have hcursor : rtSizeToPages (rtPagesToSize 0 + rtPagesToSize (rtSizeToPages 614400)) =
        1200 := by decide
    rw [hcursor, hpages]
    omega

theorem Describes.malloc_zero (hs : Describes s blocks) (behind : ℕ) :
    malloc behind 0 s = (some (s.table.dataAreaBase + s.table.lastEmptyPageOffset), s) := by
  obtain ⟨cursor, hcursor, hlast⟩ := hs.cursor
  have hnone : rtSizeToPages 0 = 0 := rfl
  have hempty : rtPagesToSize 0 = 0 := rfl
  have hlookup := lookupFreeMemRegion_eq s.table behind 0
    (by rw [hlast, rtSizeToPages_rtPagesToSize]; exact hcursor)
  have hfits : s.table.fits 0 cursor = true :=
    decide_eq_true fun k hk => absurd hk (Nat.not_lt_zero k)
  rw [hlast, rtSizeToPages_rtPagesToSize, hnone, nextFit_cursor hcursor hfits] at hlookup
  have hmemory (off : ℕ) : s.memory.write off [] = s.memory := by
    funext a
    exact Store.write_of_not_mem (by rw [List.length_nil]; omega)
  rw [malloc, runtimeAllocateMem, hlookup]
  simp only [Option.map_some, hnone, hempty, List.replicate_zero, hmemory,
    RtMemoryPageTable.markPages, Nat.add_zero, ← hlast]

/-- In every state that the callers can reach, `malloc (0)` returns the address of the next
allocation that fits at the cursor. Whoever frees it frees that allocation. -/
theorem malloc_zero_shared {scratchBuffer scratchBufferSize : ℕ} {memory : Store Byte}
    (hinit : initializeScratchMemory scratchBuffer scratchBufferSize memory = .ok s)
    {calls : List (HeapCall × ℕ)} (hclient : ClientValid s [] calls) (behind : ℕ) :
    let reached := (heapRun calls s).2
    let cursor := rtSizeToPages reached.table.lastEmptyPageOffset
    ∃ h p, HeapRun s.table.dataArea [] (heapRun calls s).1 h ∧ Represents reached h ∧
      malloc behind 0 reached = (some p, reached) ∧
      ∀ behind' size, 0 < size → cursor + rtSizeToPages size ≤ reached.table.pageCount →
        reached.table.fits (rtSizeToPages size) cursor = true →
        (malloc behind' size reached).1 = some p ∧
          Represents (malloc behind' size reached).2 ((p, .cleared size) :: h) ∧
          Represents (free p (malloc behind' size reached).2) h := by
  intro reached cursor
  obtain ⟨hfresh, -, -⟩ := initializeScratchMemory_represents hinit
  obtain ⟨-, h, hrun, blocks, hs, rfl⟩ := heapRun_simulates hfresh hclient
  refine ⟨_, _, hrun, ⟨blocks, hs, rfl⟩, hs.malloc_zero behind,
    fun behind' size hsize hinside hfits => ?_⟩
  set p := reached.table.dataAreaBase + reached.table.lastEmptyPageOffset with hp
  have hlast : rtPagesToSize cursor = reached.table.lastEmptyPageOffset := by
    obtain ⟨k, -, hk⟩ := hs.cursor
    change rtPagesToSize (rtSizeToPages reached.table.lastEmptyPageOffset) = _
    rw [hk, rtSizeToPages_rtPagesToSize]
  have hsame : (malloc behind' size reached).1 = some p := by
    rw [(hs.malloc_eq behind' size).2, nextFit_cursor hinside hfits, Option.map_some, hlast]
  refine ⟨hsame, ?_⟩
  rcases hs.allocate behind' hsize with ⟨hnone, -⟩ | ⟨start, hcall, hapart, hdescribes⟩
  · rw [malloc, hnone] at hsame
    cases hsame
  · rw [malloc, hcall] at hsame ⊢
    have hpointer : (clearedBlock start size).pointer reached.table.dataAreaBase = p :=
      Option.some.inj hsame
    refine ⟨⟨_, hdescribes, ?_⟩, ⟨blocks, ?_, ?_⟩⟩
    · rw [← hpointer]
      rfl
    · have hfreed := hdescribes.free List.mem_cons_self
      change Describes _ (without start _) at hfreed
      rw [(without_cleared hs hsize hapart).2] at hfreed
      rw [← hpointer, free, if_neg (hs.pointer_ne_zero _)]
      exact hfreed
    · obtain ⟨hbase, -, -⟩ := table_free_eq hdescribes List.mem_cons_self
      rw [← hpointer, free, if_neg (hs.pointer_ne_zero _)]
      exact congrArg (fun base => heapOf base blocks) hbase.symm

/-- In the fresh table the two pointers are the start of the data area. -/
theorem malloc_zero_shared_fresh :
    ∃ s, initializeScratchMemory 0x1000 (minRequiredBlocks * 1024) (fun _ => 0) = .ok s ∧
      ∃ h p, Represents s h ∧ malloc 0 0 s = (some p, s) ∧ (malloc 0 1000 s).1 = some p ∧
        Represents (free p (malloc 0 1000 s).2) h := by
  refine ⟨_, rfl, ?_⟩
  obtain ⟨h, p, -, hs, hzero, hnext⟩ := @malloc_zero_shared _ 0x1000 (minRequiredBlocks * 1024)
    (fun _ => 0) rfl [] trivial 0
  obtain ⟨hsame, -, hfreed⟩ := hnext 0 1000 (by norm_num) (by decide) (by decide)
  exact ⟨h, p, hs, hzero, hsame, hfreed⟩

end ProjectMu.RuntimeMem
