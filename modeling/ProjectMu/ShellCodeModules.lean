import ProjectMu.ShellCodeReference

/-!
# The modules in memory

The load order list and the images of its modules in a memory, and what of them does not
change as long as the list is left alone.
-/

namespace ProjectMu

open Arm64

/-- From the list head over the entries and back to the head. -/
def Follows (mem : Arm64.Memory) (head : Address) : Address → List Address → Prop
  | a, [] => mem.read64 a = head
  | a, entry :: entries => mem.read64 a = entry ∧ entry ≠ head ∧ Follows mem head entry entries

/-- The bytes of a module, in whole words. -/
def InImage (mem : Arm64.Memory) (entry a : Address) : Prop :=
  (a - dllBase mem entry).toNat < 4 * wordCount (sizeOfImage mem entry).toNat

def InListHead (osLoaderBlock a : Address) : Prop :=
  (a - loadOrderListHead osLoaderBlock).toNat < 0x10

/-- The bytes of a `KLDR_DATA_TABLE_ENTRY`, as far as `SizeOfImage`. -/
def InEntry (entry a : Address) : Prop := (a - entry).toNat < 0x44

structure LoadOrderList (mem : Arm64.Memory) (osLoaderBlock : Address) (entries : List Address) :
    Prop where
  follows : Follows mem (loadOrderListHead osLoaderBlock) (loadOrderListHead osLoaderBlock) entries
  fits : ∀ entry ∈ entries, Fits (dllBase mem entry) (sizeOfImage mem entry).toNat
  apart : entries.Pairwise fun entry entry' => ∀ a, InImage mem entry a → ¬InImage mem entry' a
  apartHead : ∀ entry ∈ entries, ∀ a, InImage mem entry a → ¬InListHead osLoaderBlock a
  apartEntries : ∀ entry ∈ entries, ∀ a, InImage mem entry a → ∀ entry' ∈ entries, ¬InEntry entry' a

def InCode (pc : Address) (code : List (BitVec 8)) (a : Address) : Prop :=
  (a - pc).toNat < code.length

theorem dllBase_congr {m m' : Arm64.Memory} {entry : Address}
    (h : ∀ a, InEntry entry a → m' a = m a) : dllBase m' entry = dllBase m entry := by
  refine Memory.read64_congr fun k hk => h _ ?_
  rw [InEntry, show entry + 0x30 + BitVec.ofNat 64 k - entry = BitVec.ofNat 64 (0x30 + k) by
    rw [BitVec.ofNat_add, BitVec.add_assoc, offset_sub]; rfl, BitVec.toNat_ofNat]
  omega

theorem sizeOfImage_congr {m m' : Arm64.Memory} {entry : Address}
    (h : ∀ a, InEntry entry a → m' a = m a) : sizeOfImage m' entry = sizeOfImage m entry := by
  refine Memory.read32_congr fun k hk => h _ ?_
  rw [InEntry, show entry + 0x40 + BitVec.ofNat 64 k - entry = BitVec.ofNat 64 (0x40 + k) by
    rw [BitVec.ofNat_add, BitVec.add_assoc, offset_sub]; rfl, BitVec.toNat_ofNat]
  omega

theorem firstEntry_congr {m m' : Arm64.Memory} {osLoaderBlock : Address}
    (h : ∀ a, InListHead osLoaderBlock a → m' a = m a) :
    m'.read64 (loadOrderListHead osLoaderBlock) = m.read64 (loadOrderListHead osLoaderBlock) := by
  refine Memory.read64_congr fun k hk => h _ ?_
  rw [InListHead, offset_sub, BitVec.toNat_ofNat]
  omega

end ProjectMu
