import ProjectMu.FrameBuffer
import ProjectMu.LogBuffer

/-!
# Where debug output goes

The log and the frame buffer are looked up by name in the memory map of the platform. A
failing lookup leaves its output alone, and the callers tell a missing region by an output
of zero address and length, on a local descriptor that nothing has initialised. So the
lookups do what their names say exactly when the contents of that local happen to agree.
-/

namespace ProjectMu

open ByteCodec ByteRange

def asciiCharToUpper (c : Byte) : Byte := if 0x61 ≤ c ∧ c ≤ 0x7A then c - 0x20 else c

/-- `AsciiStriCmp` finds no difference. -/
def sameName (a b : List Byte) : Bool := a.map asciiCharToUpper == b.map asciiCharToUpper

structure RegionExtent where
  address : BitVec 64
  length : BitVec 64
  deriving DecidableEq, Repr

structure MemoryRegion where
  name : List Byte
  extent : RegionExtent
  deriving DecidableEq, Repr

/-- Neither an address nor a length. -/
def RegionExtent.IsZero (r : RegionExtent) : Prop := r.address = 0 ∧ r.length = 0

instance (r : RegionExtent) : Decidable r.IsZero := inferInstanceAs (Decidable (_ ∧ _))

inductive LookupError
  | notFound
  | bufferTooSmall
  deriving DecidableEq, Repr

def asciiName (s : String) : List Byte := s.toList.map (fun c => BitVec.ofNat 8 c.toNat)

def siliciumLog : List Byte := asciiName "Silicium Log"
def siliciumLogUnderscore : List Byte := asciiName "Silicium_Log"
def uefiLog : List Byte := asciiName "UEFI Log"
def uefiLogUnderscore : List Byte := asciiName "UEFI_Log"
def displayReserved : List Byte := asciiName "Display Reserved"
def displayReservedUnderscore : List Byte := asciiName "Display_Reserved"

section Map

variable (memoryMap : List MemoryRegion)

/-- The first region of that name. -/
def regionNamed (name : List Byte) : Option RegionExtent :=
  (memoryMap.find? (fun region => sameName name region.name)).map MemoryRegion.extent

/-- The output parameter after the call: overwritten only when the region exists. -/
def locateMemoryRegionByName (name : List Byte) (output : RegionExtent) : RegionExtent :=
  (regionNamed memoryMap name).getD output

/-- `logRegion` is what the local descriptor holds before anything is stored in it. -/
def getLogBufferMemory (logRegion : RegionExtent) : Except LookupError RegionExtent :=
  let logRegion := locateMemoryRegionByName memoryMap siliciumLog logRegion
  let logRegion := locateMemoryRegionByName memoryMap siliciumLogUnderscore logRegion
  let logRegion :=
    if logRegion.IsZero then
      let logRegion := locateMemoryRegionByName memoryMap uefiLog logRegion
      locateMemoryRegionByName memoryMap uefiLogUnderscore logRegion
    else logRegion
  if logRegion.IsZero then .error .notFound
  else if logRegion.length ≤ BitVec.ofNat 64 logBufferHeaderSize then .error .bufferTooSmall
  else .ok logRegion

def getFrameBufferMemory (fbRegion : RegionExtent) : Except LookupError RegionExtent :=
  let fbRegion := locateMemoryRegionByName memoryMap displayReserved fbRegion
  let fbRegion := locateMemoryRegionByName memoryMap displayReservedUnderscore fbRegion
  if fbRegion.IsZero then .error .notFound else .ok fbRegion

/-- One byte to the log and to the frame buffer, as far as they were found. `none` is a
division by zero in the frame buffer code. -/
def writeDebugByte (g : FrameBufferPcds) (log fb : Except LookupError RegionExtent)
    (memory : Store Byte) (char : Byte) : Option (Store Byte) :=
  let memory := match log with
    | .error _ => memory
    | .ok r => writeLogBuffer r.address.toNat r.length.toNat memory char
  match fb with
  | .error _ => some memory
  | .ok r =>
    (writeFrameBuffer g r.address.toNat r.length.toNat ⟨memory, []⟩ char).map FbTrace.memory

/-- The number of bytes written and the memory. -/
def serialPortWrite (g : FrameBufferPcds) (fbRegion logRegion : RegionExtent)
    (buffer : List Byte) (memory : Store Byte) : Option (ℕ × Store Byte) :=
  let fb := getFrameBufferMemory memoryMap fbRegion
  let log := getLogBufferMemory memoryMap logRegion
  match fb, log with
  | .error _, .error _ => some (0, memory)
  | _, _ => (buffer.foldlM (writeDebugByte g log fb) memory).map (fun m => (buffer.length, m))

/-- The region the log should go to: the one of our own before the one of the loader. -/
def ownLog : Option RegionExtent :=
  (regionNamed memoryMap siliciumLogUnderscore).or (regionNamed memoryMap siliciumLog)

def loaderLog : Option RegionExtent :=
  (regionNamed memoryMap uefiLogUnderscore).or (regionNamed memoryMap uefiLog)

def namedDisplay : Option RegionExtent :=
  (regionNamed memoryMap displayReservedUnderscore).or (regionNamed memoryMap displayReserved)

/-- A log region has room for the header and some text. -/
def refuseSmall (r : RegionExtent) : Except LookupError RegionExtent :=
  if r.length ≤ 16 then .error .bufferTooSmall else .ok r

/-- What the log lookup is for. -/
def namedLogBuffer : Except LookupError RegionExtent :=
  match (ownLog memoryMap).or (loaderLog memoryMap) with
  | none => .error .notFound
  | some r => refuseSmall r

/-- What the frame buffer lookup is for. -/
def namedFrameBuffer : Except LookupError RegionExtent :=
  match namedDisplay memoryMap with
  | none => .error .notFound
  | some r => .ok r

/-- The contents of the local that do not disturb the log lookup. With a log region of our
own they do not matter, unless that region is empty; without one they must be zero, or
agree with the loader's log. -/
def LogLocalHarmless (logRegion : RegionExtent) : Prop :=
  match ownLog memoryMap, loaderLog memoryMap with
  | some r, none => ¬r.IsZero
  | some r, some r' => r.IsZero → ¬r'.IsZero ∧ r'.length ≤ 16
  | none, none => logRegion.IsZero
  | none, some r =>
    if logRegion.IsZero then ¬r.IsZero
    else logRegion = r ∨ logRegion.length ≤ 16 ∧ r.length ≤ 16

def FbLocalHarmless (fbRegion : RegionExtent) : Prop :=
  match namedDisplay memoryMap with
  | some r => ¬r.IsZero
  | none => fbRegion.IsZero

theorem locate_both (first second : List Byte) (output : RegionExtent) :
    locateMemoryRegionByName memoryMap second
        (locateMemoryRegionByName memoryMap first output) =
      ((regionNamed memoryMap second).or (regionNamed memoryMap first)).getD output := by
  unfold locateMemoryRegionByName
  cases regionNamed memoryMap second <;> rfl

/-- The code in terms of the two regions it can find. -/
theorem getLogBufferMemory_eq (logRegion : RegionExtent) :
    getLogBufferMemory memoryMap logRegion =
      let own := (ownLog memoryMap).getD logRegion
      let selected := if own.IsZero then (loaderLog memoryMap).getD own else own
      if selected.IsZero then .error .notFound else refuseSmall selected := by
  unfold getLogBufferMemory
  dsimp only
  rw [locate_both, locate_both]
  rfl

theorem getFrameBufferMemory_eq (fbRegion : RegionExtent) :
    getFrameBufferMemory memoryMap fbRegion =
      let selected := (namedDisplay memoryMap).getD fbRegion
      if selected.IsZero then .error .notFound else .ok selected := by
  unfold getFrameBufferMemory
  dsimp only
  rw [locate_both]
  rfl

theorem length_le_of_isZero {r : RegionExtent} (h : r.IsZero) : r.length ≤ 16 := by
  rw [h.2]
  decide

theorem refuseSmall_ne_notFound (r : RegionExtent) : refuseSmall r ≠ .error .notFound := by
  unfold refuseSmall
  split_ifs <;> simp

theorem refuseSmall_eq_iff {r s : RegionExtent} :
    refuseSmall r = refuseSmall s ↔ r = s ∨ r.length ≤ 16 ∧ s.length ≤ 16 := by
  unfold refuseSmall
  constructor
  · intro h
    split_ifs at h with hr hs
    · exact Or.inr ⟨hr, hs⟩
    · exact Or.inl (Except.ok.inj h)
  · rintro (rfl | ⟨hr, hs⟩)
    · rfl
    · rw [if_pos hr, if_pos hs]

theorem getLogBufferMemory_eq_named_iff (logRegion : RegionExtent) :
    getLogBufferMemory memoryMap logRegion = namedLogBuffer memoryMap ↔
      LogLocalHarmless memoryMap logRegion := by
  rw [getLogBufferMemory_eq]
  unfold namedLogBuffer LogLocalHarmless
  cases ownLog memoryMap with
  | some r =>
    by_cases hr : r.IsZero
    · have hlen := length_le_of_isZero hr
      cases loaderLog memoryMap with
      | none => simp [hr, (refuseSmall_ne_notFound r).symm]
      | some r' =>
        by_cases hr' : r'.IsZero
        · simp [hr, hr', (refuseSmall_ne_notFound r).symm]
        · have hne : r' ≠ r := fun h => hr' (h ▸ hr)
          simp [hr, hr', refuseSmall_eq_iff, hne]
          exact fun _ => hlen
    · cases loaderLog memoryMap <;> simp [hr]
  | none =>
    cases loaderLog memoryMap with
    | none =>
      by_cases hlocal : logRegion.IsZero
      · simp [hlocal]
      · simp [hlocal, refuseSmall_ne_notFound]
    | some r =>
      by_cases hlocal : logRegion.IsZero
      · by_cases hr : r.IsZero
        · simp [hlocal, hr, (refuseSmall_ne_notFound r).symm]
        · simp [hlocal, hr]
      · simp only [Option.getD_none, if_neg hlocal, Option.none_or, refuseSmall_eq_iff]

theorem getFrameBufferMemory_eq_named_iff (fbRegion : RegionExtent) :
    getFrameBufferMemory memoryMap fbRegion = namedFrameBuffer memoryMap ↔
      FbLocalHarmless memoryMap fbRegion := by
  rw [getFrameBufferMemory_eq]
  unfold namedFrameBuffer FbLocalHarmless
  cases namedDisplay memoryMap with
  | none => by_cases h : fbRegion.IsZero <;> simp [h]
  | some r => by_cases h : r.IsZero <;> simp [h]

/-- Debug output goes where the memory map says, and nowhere where it names no region. -/
structure OutputAsNamed (g : FrameBufferPcds) (fbRegion logRegion : RegionExtent) : Prop where
  log : getLogBufferMemory memoryMap logRegion = namedLogBuffer memoryMap
  frameBuffer : getFrameBufferMemory memoryMap fbRegion = namedFrameBuffer memoryMap
  silent : ownLog memoryMap = none → loaderLog memoryMap = none → namedDisplay memoryMap = none →
    ∀ buffer memory, serialPortWrite memoryMap g fbRegion logRegion buffer memory =
      some (0, memory)

theorem outputAsNamed_iff (g : FrameBufferPcds) (fbRegion logRegion : RegionExtent) :
    OutputAsNamed memoryMap g fbRegion logRegion ↔
      LogLocalHarmless memoryMap logRegion ∧ FbLocalHarmless memoryMap fbRegion := by
  rw [← getLogBufferMemory_eq_named_iff, ← getFrameBufferMemory_eq_named_iff]
  constructor
  · intro h
    exact ⟨h.log, h.frameBuffer⟩
  · intro h
    obtain ⟨hlog, hfb⟩ := h
    refine ⟨hlog, hfb, ?_⟩
    intro hown hloader hdisplay buffer memory
    have hlog' : getLogBufferMemory memoryMap logRegion = .error .notFound := by
      rw [hlog, namedLogBuffer, hown, hloader]
      rfl
    have hfb' : getFrameBufferMemory memoryMap fbRegion = .error .notFound := by
      rw [hfb, namedFrameBuffer, hdisplay]
    rw [serialPortWrite, hlog', hfb']

end Map

/-- With only the loader's log in the map, a leftover on the stack is taken for the log. -/
theorem getLogBufferMemory_leftover :
    getLogBufferMemory [⟨uefiLogUnderscore, ⟨0x81CE4000, 0x10000⟩⟩] ⟨0xA7601000, 0x1000⟩ =
        .ok ⟨0xA7601000, 0x1000⟩ ∧
      namedLogBuffer [⟨uefiLogUnderscore, ⟨0x81CE4000, 0x10000⟩⟩] =
        .ok ⟨0x81CE4000, 0x10000⟩ := by
  refine ⟨by decide, by decide⟩

end ProjectMu
