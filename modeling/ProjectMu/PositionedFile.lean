import ProjectMu.ByteRange

/-!
# Files with a position

An open file is its contents and a position. Reading and writing start at the position
and advance it; a write overwrites what lies under it and extends the file past its end,
and nothing ever shortens the file.
-/

namespace PositionedFile

variable {α : Type*}

structure File (α : Type*) where
  content : List α
  position : ℕ
  deriving DecidableEq, Repr

def File.opened (content : List α) : File α := ⟨content, 0⟩

def File.read (f : File α) (n : ℕ) : List α × File α :=
  let bytes := ByteRange.slice f.content f.position n
  (bytes, { f with position := f.position + bytes.length })

/-- A write past the end fills the gap first. -/
def File.write [Inhabited α] (f : File α) (bytes : List α) : File α where
  content := ByteRange.splice
    (f.content ++ List.replicate (f.position - f.content.length) default) f.position bytes
  position := f.position + bytes.length

/-- A read of the whole file leaves the position at its end. -/
theorem read_opened (content : List α) :
    (File.opened content).read content.length = (content, ⟨content, content.length⟩) := by
  simp [File.read, File.opened, ByteRange.slice]

variable [Inhabited α]

@[simp] theorem write_at_start (content bytes : List α) :
    ((File.opened content).write bytes).content = bytes ++ content.drop bytes.length := by
  simp [File.write, File.opened, ByteRange.splice]

@[simp] theorem write_at_end (content bytes : List α) :
    ((⟨content, content.length⟩ : File α).write bytes).content = content ++ bytes := by
  simp [File.write, ByteRange.splice]

/-- A write at the start leaves exactly what it wrote when it covers the old contents. -/
theorem write_at_start_eq_iff (content bytes : List α) :
    ((File.opened content).write bytes).content = bytes ↔ content.length ≤ bytes.length := by
  rw [write_at_start]
  simp

/-- A write at the end leaves exactly what it wrote when there was nothing before it. -/
theorem write_at_end_eq_iff (content bytes : List α) :
    ((⟨content, content.length⟩ : File α).write bytes).content = bytes ↔ content = [] := by
  rw [write_at_end]
  simp

end PositionedFile
