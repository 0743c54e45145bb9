import Mathlib.Tactic

/-!
# The speeds of the memory

`getDdrSpeeds` assigns the maximum speed only at the last entry of the frequency table, and only
if that entry is enabled. So the maximum is reported exactly when the last entry holds it.
-/

namespace ProjectMu

structure DdrFreq where
  freqKhz : BitVec 32
  enable : BitVec 8
  deriving DecidableEq, Repr

/-- The frequency table; what lies behind its entries is never asked for. -/
structure DdrFreqPlanEntry where
  ddrFreq : ℕ → DdrFreq
  numDdrFreqs : BitVec 8

inductive DdrError
  | notReady
  | unsupported
  | aborted
  | protocol (code : BitVec 64)
  deriving DecidableEq, Repr

/-- The answers of the protocol. -/
structure DdrGetInfoProtocol where
  revision : BitVec 64
  getDdrFreq : Except DdrError (BitVec 32)
  getDdrFreqTable : Except DdrError DdrFreqPlanEntry

/-- One pass of the loop. -/
def saveMaxSpeed (ddrFreqTable : DdrFreqPlanEntry) (maxSpeed : BitVec 32) (i : ℕ) : BitVec 32 :=
  let entry := ddrFreqTable.ddrFreq i
  if entry.freqKhz = 0 ∨ entry.enable = 0 then maxSpeed
  else if (i : ℤ) = ddrFreqTable.numDdrFreqs.toNat - 1 then entry.freqKhz / 1000
  else maxSpeed

/-- The status and what `*MaxSpeed` and `*CurrentSpeed` hold after the call, from what they held
before it. -/
def getDdrSpeeds (ddrInfoProtocol : Option DdrGetInfoProtocol) (pcdFaultyDdrProtocol : Bool)
    (maxSpeed currentSpeed : BitVec 32) : Except DdrError Unit × BitVec 32 × BitVec 32 :=
  match ddrInfoProtocol with
  | none => (.error .notReady, maxSpeed, currentSpeed)
  | some protocol =>
    if protocol.revision < 0x30000 then (.error .unsupported, maxSpeed, currentSpeed)
    else if pcdFaultyDdrProtocol then (.error .aborted, maxSpeed, currentSpeed)
    else
      match protocol.getDdrFreq with
      | .error e => (.error e, maxSpeed, currentSpeed)
      | .ok currentSpeed =>
        match protocol.getDdrFreqTable with
        | .error e => (.error e, maxSpeed, currentSpeed)
        | .ok ddrFreqTable =>
          (.ok (), (List.range ddrFreqTable.numDdrFreqs.toNat).foldl
            (saveMaxSpeed ddrFreqTable) maxSpeed, currentSpeed)

namespace DdrFreqPlanEntry

variable (table : DdrFreqPlanEntry)

def IsEnabled (i : ℕ) : Prop := (table.ddrFreq i).freqKhz ≠ 0 ∧ (table.ddrFreq i).enable ≠ 0

instance (i : ℕ) : Decidable (table.IsEnabled i) := inferInstanceAs (Decidable (_ ∧ _))

/-- The frequencies of the entries that are enabled. -/
def enabledFreqs : List (BitVec 32) :=
  ((List.range table.numDdrFreqs.toNat).filter (fun i => table.IsEnabled i)).map
    (fun i => (table.ddrFreq i).freqKhz)

/-- The last entry is enabled, and no enabled one is faster in MHz. -/
structure LastIsFastest : Prop where
  enabled : table.IsEnabled (table.numDdrFreqs.toNat - 1)
  fastest : ∀ f ∈ table.enabledFreqs,
    f / 1000 ≤ (table.ddrFreq (table.numDdrFreqs.toNat - 1)).freqKhz / 1000

variable {table}

theorem mem_enabledFreqs {f : BitVec 32} : f ∈ table.enabledFreqs ↔
    ∃ i < table.numDdrFreqs.toNat, table.IsEnabled i ∧ (table.ddrFreq i).freqKhz = f := by
  simp only [enabledFreqs, List.mem_map, List.mem_filter, List.mem_range, decide_eq_true_eq,
    and_assoc]

theorem numDdrFreqs_pos (h : table.enabledFreqs ≠ []) : 0 < table.numDdrFreqs.toNat := by
  obtain ⟨f, hf⟩ := List.exists_mem_of_ne_nil _ h
  obtain ⟨i, hi, -⟩ := mem_enabledFreqs.mp hf
  exact Nat.zero_lt_of_lt hi

end DdrFreqPlanEntry

variable {table : DdrFreqPlanEntry}

theorem saveMaxSpeed_eq (maxSpeed : BitVec 32) (i : ℕ) : saveMaxSpeed table maxSpeed i =
    if table.IsEnabled i ∧ i + 1 = table.numDdrFreqs.toNat then
      (table.ddrFreq i).freqKhz / 1000 else maxSpeed := by
  have hlast : (i : ℤ) = table.numDdrFreqs.toNat - 1 ↔ i + 1 = table.numDdrFreqs.toNat := by
    omega
  simp only [saveMaxSpeed, hlast]
  by_cases henabled : table.IsEnabled i
  · have hcheck : ¬((table.ddrFreq i).freqKhz = 0 ∨ (table.ddrFreq i).enable = 0) :=
      fun h => h.elim henabled.1 henabled.2
    rw [if_neg hcheck]
    simp only [henabled, true_and]
  · have hcheck : (table.ddrFreq i).freqKhz = 0 ∨ (table.ddrFreq i).enable = 0 := by
      by_contra hnone
      exact henabled ⟨fun h => hnone (.inl h), fun h => hnone (.inr h)⟩
    rw [if_pos hcheck, if_neg (fun h => henabled h.1)]

/-- Before the last entry nothing is assigned. -/
theorem foldl_saveMaxSpeed_of_lt (maxSpeed : BitVec 32) {n : ℕ}
    (h : n < table.numDdrFreqs.toNat) :
    (List.range n).foldl (saveMaxSpeed table) maxSpeed = maxSpeed := by
  induction n with
  | zero => rfl
  | succ n ih =>
    rw [List.range_succ, List.foldl_append, ih (by omega), List.foldl_cons, List.foldl_nil,
      saveMaxSpeed_eq, if_neg (by omega)]

theorem foldl_saveMaxSpeed (maxSpeed : BitVec 32) (h : 0 < table.numDdrFreqs.toNat) :
    (List.range table.numDdrFreqs.toNat).foldl (saveMaxSpeed table) maxSpeed =
      if table.IsEnabled (table.numDdrFreqs.toNat - 1) then
        (table.ddrFreq (table.numDdrFreqs.toNat - 1)).freqKhz / 1000 else maxSpeed := by
  obtain ⟨n, hn⟩ : ∃ n, table.numDdrFreqs.toNat = n + 1 := ⟨_, (Nat.succ_pred_eq_of_pos h).symm⟩
  rw [hn, List.range_succ, List.foldl_append, foldl_saveMaxSpeed_of_lt maxSpeed (by omega),
    List.foldl_cons, List.foldl_nil, saveMaxSpeed_eq, Nat.add_sub_cancel]
  simp only [hn, and_true]

/-- The calls that return with `EFI_SUCCESS`. -/
structure DdrGetInfoProtocol.Answers (protocol : DdrGetInfoProtocol)
    (pcdFaultyDdrProtocol : Bool) : Prop where
  revision : 0x30000 ≤ protocol.revision
  trusted : pcdFaultyDdrProtocol = false
  current : ∃ currentSpeed, protocol.getDdrFreq = .ok currentSpeed

/-- If the call returns with `EFI_SUCCESS`, `*MaxSpeed` is the fastest enabled frequency in MHz,
whatever it held before. -/
def ReportsMaximum (protocol : DdrGetInfoProtocol) (pcdFaultyDdrProtocol : Bool)
    (table : DdrFreqPlanEntry) : Prop :=
  ∀ maxSpeed currentSpeed,
    (getDdrSpeeds (some protocol) pcdFaultyDdrProtocol maxSpeed currentSpeed).1 = .ok () →
    ∃ f ∈ table.enabledFreqs, (∀ f' ∈ table.enabledFreqs, f' ≤ f) ∧
      (getDdrSpeeds (some protocol) pcdFaultyDdrProtocol maxSpeed currentSpeed).2.1 = f / 1000

variable {protocol : DdrGetInfoProtocol} {pcdFaultyDdrProtocol : Bool}

theorem getDdrSpeeds_ok_iff (htable : protocol.getDdrFreqTable = .ok table)
    (maxSpeed currentSpeed : BitVec 32) :
    (getDdrSpeeds (some protocol) pcdFaultyDdrProtocol maxSpeed currentSpeed).1 = .ok () ↔
      protocol.Answers pcdFaultyDdrProtocol := by
  rw [getDdrSpeeds]
  by_cases hrevision : protocol.revision < 0x30000
  · rw [if_pos hrevision]
    exact ⟨fun h => (by cases h), fun h => absurd hrevision (BitVec.not_lt.mpr h.revision)⟩
  rw [if_neg hrevision]
  cases pcdFaultyDdrProtocol with
  | true => exact ⟨fun h => (by cases h), fun h => (by cases h.trusted)⟩
  | false =>
    rw [if_neg Bool.false_ne_true, htable]
    cases hcurrent : protocol.getDdrFreq with
    | error e =>
      refine ⟨fun h => (by cases h), fun h => ?_⟩
      obtain ⟨c, hc⟩ := h.current
      rw [hcurrent] at hc
      cases hc
    | ok c => exact ⟨fun _ => ⟨BitVec.not_lt.mp hrevision, rfl, c, hcurrent⟩, fun _ => rfl⟩

theorem maxSpeed_getDdrSpeeds (htable : protocol.getDdrFreqTable = .ok table)
    (h : protocol.Answers pcdFaultyDdrProtocol) (maxSpeed currentSpeed : BitVec 32) :
    (getDdrSpeeds (some protocol) pcdFaultyDdrProtocol maxSpeed currentSpeed).2.1 =
      (List.range table.numDdrFreqs.toNat).foldl (saveMaxSpeed table) maxSpeed := by
  obtain ⟨c, hc⟩ := h.current
  rw [getDdrSpeeds, if_neg (BitVec.not_lt.mpr h.revision), h.trusted, if_neg Bool.false_ne_true,
    hc, htable]

theorem exists_fastest {l : List (BitVec 32)} (h : l ≠ []) :
    ∃ f ∈ l, ∀ f' ∈ l, f' ≤ f := by
  induction l with
  | nil => exact absurd rfl h
  | cons a l ih =>
    by_cases hl : l = []
    · refine ⟨a, List.mem_cons_self, fun f' hf' => ?_⟩
      rw [hl, List.mem_singleton] at hf'
      exact hf' ▸ BitVec.le_refl a
    · obtain ⟨f, hf, hmax⟩ := ih hl
      rcases BitVec.le_total a f with hle | hle
      · exact ⟨f, List.mem_cons_of_mem a hf, List.forall_mem_cons.mpr ⟨hle, hmax⟩⟩
      · exact ⟨a, List.mem_cons_self, List.forall_mem_cons.mpr
          ⟨BitVec.le_refl a, fun f' hf' => BitVec.le_trans (hmax f' hf') hle⟩⟩

theorem mhz_mono {f f' : BitVec 32} (h : f ≤ f') : f / 1000 ≤ f' / 1000 := by
  rw [BitVec.le_def, BitVec.toNat_udiv, BitVec.toNat_udiv]
  exact Nat.div_le_div_right h

/-- The maximum is reported exactly when the last entry holds it. -/
theorem reportsMaximum_iff (htable : protocol.getDdrFreqTable = .ok table)
    (hsome : table.enabledFreqs ≠ []) :
    ReportsMaximum protocol pcdFaultyDdrProtocol table ↔
      (protocol.Answers pcdFaultyDdrProtocol → table.LastIsFastest) := by
  have hpos := DdrFreqPlanEntry.numDdrFreqs_pos hsome
  have hspeed : ∀ hanswers : protocol.Answers pcdFaultyDdrProtocol, ∀ maxSpeed, _ :=
    fun hanswers maxSpeed =>
      (maxSpeed_getDdrSpeeds htable hanswers maxSpeed 0).trans (foldl_saveMaxSpeed maxSpeed hpos)
  obtain ⟨fastest, hfastest, hmax⟩ := exists_fastest hsome
  constructor
  · intro hreports hanswers
    have hresult := fun maxSpeed =>
      hreports maxSpeed 0 ((getDdrSpeeds_ok_iff htable maxSpeed 0).mpr hanswers)
    by_cases henabled : table.IsEnabled (table.numDdrFreqs.toNat - 1)
    · obtain ⟨f, hf, hle, heq⟩ := hresult 0
      rw [hspeed hanswers, if_pos henabled] at heq
      exact ⟨henabled, fun f' hf' => heq ▸ mhz_mono (hle f' hf')⟩
    · -- nothing is assigned, so two values of `*MaxSpeed` cannot both be the maximum
      exfalso
      obtain ⟨f, hf, hle, heq⟩ := hresult (fastest / 1000 + 1)
      rw [hspeed hanswers, if_neg henabled] at heq
      rw [BitVec.le_antisymm (hmax f hf) (hle fastest hfastest)] at heq
      generalize fastest / 1000 = speed at heq
      bv_omega
  · intro hlast maxSpeed currentSpeed hok
    have hanswers := (getDdrSpeeds_ok_iff htable maxSpeed currentSpeed).mp hok
    obtain ⟨henabled, hle⟩ := hlast hanswers
    have hmem : (table.ddrFreq (table.numDdrFreqs.toNat - 1)).freqKhz ∈ table.enabledFreqs :=
      DdrFreqPlanEntry.mem_enabledFreqs.mpr ⟨_, by omega, henabled, rfl⟩
    refine ⟨fastest, hfastest, hmax, ?_⟩
    rw [maxSpeed_getDdrSpeeds htable hanswers, foldl_saveMaxSpeed maxSpeed hpos, if_pos henabled]
    exact BitVec.le_antisymm (mhz_mono (hmax _ hmem)) (hle fastest hfastest)

/-- The slower of two speeds is enabled and the faster one, behind it, is not. -/
def disabledLast : DdrFreqPlanEntry where
  ddrFreq i := if i = 0 then ⟨1555000, 1⟩ else ⟨2092000, 0⟩
  numDdrFreqs := 2

def disabledLastProtocol : DdrGetInfoProtocol := ⟨0x70000, .ok 1555000, .ok disabledLast⟩

theorem disabledLast_reportsMaximum_iff :
    ReportsMaximum disabledLastProtocol false disabledLast ↔
      (disabledLastProtocol.Answers false → disabledLast.LastIsFastest) :=
  reportsMaximum_iff rfl (by decide)

theorem disabledLast_not_reportsMaximum :
    ¬ReportsMaximum disabledLastProtocol false disabledLast := by
  intro h
  obtain ⟨f, hf, -, heq⟩ := h 0 0 rfl
  have hfreqs : disabledLast.enabledFreqs = [1555000] := by decide
  rw [hfreqs, List.mem_singleton] at hf
  rw [hf] at heq
  exact absurd heq (by decide)

end ProjectMu
