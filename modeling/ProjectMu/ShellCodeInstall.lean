import ProjectMu.ShellCodeIrm
import ProjectMu.ShellCodeIrmStores

/-!
# What the `IRM_X8` block stores

The block stores where its search has found both places, and only around words of the module.
-/

namespace ProjectMu

open Arm64

attribute [local simp] Instr.exec Core.read Core.readSp Core.write Core.writeSp Size.narrow
  Size.load Size.compare

variable {p : List Instr} {P : Set Address} {c : Core} {s : IrmSearch} {base : Address} {i : ℕ}

/-- From the end of the loop to the test of what has been found. -/
theorem irmX8_test (h : IrmX8Found s c) :
    ∃ d, Runs irmX8Program P 13 c 36 d ∧ IrmX8Found s d ∧
      d.flags = foundFlags s.gicInstr s.realEstateFunc := by
  let next : List Instr := [.ldr .x 9 9 0, .cmp .x 9 10]
  let test : List Instr := [.cmpImm .x 4 0, .ccmp .x 3 0 ⟨false, true, false, false⟩ .ne]
  let c₁ := execAll next c
  have hnext : Runs irmX8Program P 13 c 15 c₁ := .straight next rfl rfl
  have hjump : Runs irmX8Program P 15 c₁ 34 c₁ := .branch rfl rfl
  have htest : Runs irmX8Program P 34 c₁ 36 (execAll test c₁) := .straight test rfl rfl
  refine ⟨_, hnext.trans (hjump.trans htest), ⟨h.1, h.2, h.3⟩, ?_⟩
  rw [← h.gicInstr, ← h.realEstateFunc]
  rfl

theorem irmX8_install (h : IrmX8Found s c)
    (hkeep : s.gicInstr ≠ 0 → s.realEstateFunc ≠ 0 → ∀ a ∈ P,
      4 ≤ (a - s.gicInstr).toNat ∧ 0x5C ≤ (a - (s.realEstateFunc - 0xA8)).toNat) :
    ∃ c', Runs irmX8Program P 13 c 104 c' ∧ c'.mem = irmX8Install s := by
  obtain ⟨c₁, htest, hfound, hflags⟩ := irmX8_test (P := P) h
  by_cases hboth : s.gicInstr ≠ 0 ∧ s.realEstateFunc ≠ 0
  · have hthrough : Runs irmX8Program P 36 c₁ 37 c₁ :=
      .notTaken rfl hflags fun heq => foundFlags_eq.mp heq hboth
    obtain ⟨c₂, hstores, hmem⟩ := @runs_irmStores P c₁ _ _ irmX8Patches hfound.gicInstr
      hfound.realEstateFunc rfl (hkeep hboth.1 hboth.2)
    have hrun : Runs irmX8Program P 37 c₁ 104 c₂ := by
      rw [irmX8Program_eq]
      exact hstores.prepend (irmSearch 0xD518CBA8)
    refine ⟨c₂, htest.trans (hthrough.trans hrun), ?_⟩
    rw [hmem, hfound.mem, irmX8Install, if_pos hboth]
    rfl
  · have hskip : Runs irmX8Program P 36 c₁ 104 c₁ :=
      .taken rfl hflags (foundFlags_eq.mpr hboth) rfl
    refine ⟨c₁, htest.trans hskip, ?_⟩
    rw [irmX8Install, if_neg hboth, hfound.mem]

/-- A place is unknown or a word of the module. -/
def IsPlace (base : Address) (size : ℕ) (place : Address) : Prop :=
  place = 0 ∨ ∃ k < wordCount size, place = word base k

theorem IsPlace.ite {size k : ℕ} {place : Address} {q : Prop} [Decidable q]
    (h : IsPlace base size place) (hk : k < wordCount size) :
    IsPlace base size (if q then word base k else place) := by
  split
  · exact .inr ⟨k, hk, rfl⟩
  · exact h

/-- The search over the words of a module changes nothing in memory. -/
structure IrmX8Searched (mem : Arm64.Memory) (base : Address) (size : ℕ) (s : IrmSearch) :
    Prop where
  mem : s.mem = mem
  gicInstr : IsPlace base size s.gicInstr
  realEstateFunc : IsPlace base size s.realEstateFunc

theorem irmX8_searched {mem : Arm64.Memory} {size n : ℕ} (hfit : NonWrapping base size)
    (hloop : forWords irmX8Body (base + BitVec.ofNat 64 size) n base ⟨mem, 0, 0⟩ = some s) :
    IrmX8Searched mem base size s := by
  refine hfit.forWords_keeps (fun k s hk h => ?_) ⟨rfl, .inl rfl, .inl rfl⟩ hloop
  exact ⟨h.mem, h.gicInstr.ite hk, h.realEstateFunc.ite hk⟩

/-- With an entry in the list, the block does to memory what the search in its module and the
stores after it do. -/
theorem irmX8_runs {entry : Address} {n : ℕ}
    (hentry : c.mem.read64 (loadOrderListHead (c.x 0)) = entry)
    (hne : entry ≠ loadOrderListHead (c.x 0))
    (hfit : NonWrapping (dllBase c.mem entry) (sizeOfImage c.mem entry).toNat)
    (hkeep : ∀ k, k < wordCount (sizeOfImage c.mem entry).toNat → ∀ a ∈ P,
      4 ≤ (a - word (dllBase c.mem entry) k).toNat ∧
        0x5C ≤ (a - (word (dllBase c.mem entry) k - 0xA8)).toNat)
    (hloop : forWords irmX8Body
      (dllBase c.mem entry + (sizeOfImage c.mem entry).setWidth 64) n (dllBase c.mem entry)
        ⟨c.mem, 0, 0⟩ = some s) :
    ∃ c', Runs irmX8Program P 0 c 104 c' ∧ c'.mem = irmX8Install s := by
  obtain ⟨d, hregs, hsome, hnone⟩ := irmX8_enter (P := P) hentry hne
  rw [← BitVec.ofNat_toNat] at hregs hsome hnone hloop
  have hsearched := irmX8_searched hfit hloop
  have hkeepPlaces : s.gicInstr ≠ 0 → s.realEstateFunc ≠ 0 → ∀ a ∈ P,
      4 ≤ (a - s.gicInstr).toNat ∧ 0x5C ≤ (a - (s.realEstateFunc - 0xA8)).toNat := by
    intro hgic hreal a ha
    obtain ⟨j, hj, hgic⟩ := hsearched.gicInstr.resolve_left hgic
    obtain ⟨k, hk, hreal⟩ := hsearched.realEstateFunc.resolve_left hreal
    rw [hgic, hreal]
    exact ⟨(hkeep j hj a ha).1, (hkeep k hk a ha).2⟩
  obtain ⟨e, hwords, hfound⟩ := hfit.runs irmX8_runsWords
    (fun hlt => ⟨d, hsome hlt, hregs⟩)
    (fun hge => ⟨d, hnone hge, ⟨hregs.gicInstr, hregs.realEstateFunc, hregs.mem⟩⟩) hloop
  obtain ⟨f, hinstall, hmem⟩ := irmX8_install hfound hkeepPlaces
  exact ⟨f, hwords.trans hinstall, hmem⟩

end ProjectMu
