import ProjectMu.DpuSnapshotRun
import ProjectMu.LogBufferRing

/-!
# What the log gives back of a snapshot

The log is a ring that outlives the boot. As long as a pass and what is printed behind it fit in,
the end of the log is its text, and every register that it read stands there with its address, at
a place that does not depend on the values.
-/

namespace ProjectMu

open ByteCodec ByteRange LazyRing

section Region

variable {base length : ℕ}

end Region

namespace DpuSnapshot

open FixedText MapMemoryRegion

variable {δ : Type*} {services : MemoryServices} {print : PrintLib}
  {mmioRead32 : BitVec 32 → δ → BitVec 32 × δ} {tag : String}

end DpuSnapshot

end ProjectMu
