import ProjectMu.GptActivePairs
import ProjectMu.SlotSwitchShared

/-!
# Pairs whose names repeat on several disks

The second entry of a pair is looked up on all disks from the first one, also where the
first entry has a namesake of it on its own disk. `switchAllGptPairs` then reports success
although some pairs of one disk stay on the old slot, or on none. `onTarget_iff` says
exactly which pairs end on the target slot.
-/

namespace ProjectMu

open ByteCodec ByteRange SlotSwitch

/-- The order of the loops: by disk, then by entry. -/
def EntryRef.Before (r s : EntryRef) : Prop :=
  r.disk < s.disk ∨ r.disk = s.disk ∧ r.entry < s.entry

/-- No used entry before this one has its name. -/
def FirstOfName (disks : List GptDisk) (ref : EntryRef) : Prop :=
  ∀ ref' entry entry', ref'.Before ref → UsedEntry disks ref entry → UsedEntry disks ref' entry' →
    entry'.text ≠ entry.text

/-- Two used entries named `base_a` and `base_b`, also for an empty `base`. -/
def NamedPair (disks : List GptDisk) (refA refB : EntryRef) : Prop :=
  ∃ entryA entryB base, UsedEntry disks refA entryA ∧ UsedEntry disks refB entryB ∧
    entryA.text = base ++ [charUnderscore, charA] ∧ entryB.text = base ++ [charUnderscore, charB]

/-- The entry of the target slot is active and the other one is not. -/
def OnTarget (disks : List GptDisk) (refA refB : EntryRef) : AbSlot → Prop
  | .a => ActiveAt disks refA ∧ ¬ ActiveAt disks refB
  | .b => ActiveAt disks refB ∧ ¬ ActiveAt disks refA

/-- The names of a pair are found at the pair itself, or its second entry is active already. -/
def NamesResolved (disks : List GptDisk) (refA refB : EntryRef) : AbSlot → Prop
  | .a => FirstOfName disks refB ∧ FirstOfName disks refA
  | .b => FirstOfName disks refB ∨ ActiveAt disks refB

/-- What the outcome of a pair depends on. Names of two characters are no slot names, so
such a pair stays as it is. -/
def Resolved (disks : List GptDisk) (refA refB : EntryRef) (targetSlot : AbSlot) : Prop :=
  (SlotPair disks refA refB ∧ NamesResolved disks refA refB targetSlot) ∨
    (¬ SlotPair disks refA refB ∧ OnTarget disks refA refB targetSlot)

/-- No pair of one disk that was active is left off the target slot. -/
def AllOnTarget (disks disks' : List GptDisk) (targetSlot : AbSlot) : Prop :=
  ∀ refA refB, refA.disk = refB.disk → NamedPair disks refA refB →
    ActiveAt disks refA ∨ ActiveAt disks refB → OnTarget disks' refA refB targetSlot

def AllResolved (disks : List GptDisk) (targetSlot : AbSlot) : Prop :=
  ∀ refA refB, refA.disk = refB.disk → NamedPair disks refA refB →
    ActiveAt disks refA ∨ ActiveAt disks refB → Resolved disks refA refB targetSlot

section Order

theorem EntryRef.Before.asymm {r s : EntryRef} (h : r.Before s) : ¬ s.Before r := by
  unfold EntryRef.Before at *
  omega

theorem pairwise_entryRefs (disks : List GptDisk) :
    (entryRefs disks).Pairwise EntryRef.Before := by
  unfold entryRefs
  rw [List.pairwise_flatMap]
  constructor
  · rintro ⟨disk, i⟩ -
    rw [List.pairwise_map]
    exact List.pairwise_lt_range.imp (fun hlt => Or.inr ⟨rfl, hlt⟩)
  · have hidx : (disks.zipIdx.map Prod.snd).Pairwise (· < ·) := by
      rw [List.zipIdx_map_snd]
      exact List.pairwise_lt_range'
    rw [List.pairwise_map] at hidx
    refine hidx.imp ?_
    intro x y hlt ref hx ref' hy
    obtain ⟨j, -, rfl⟩ := List.mem_map.mp hx
    obtain ⟨j', -, rfl⟩ := List.mem_map.mp hy
    exact Or.inl hlt

/-- In a list that an asymmetric relation orders, the element found is the least one. -/
theorem find?_eq_some_iff_of_pairwise {α : Type*} {R : α → α → Prop} {q : α → Bool} {l : List α}
    (hR : ∀ {x y}, R x y → ¬ R y x) (hl : l.Pairwise R) {x : α} :
    l.find? q = some x ↔ x ∈ l ∧ q x = true ∧ ∀ y ∈ l, R y x → q y = false := by
  induction l with
  | nil => simp
  | cons z l ih =>
    obtain ⟨hz, hl⟩ := List.pairwise_cons.mp hl
    cases hq : q z with
    | true =>
      rw [List.find?_cons_of_pos hq, Option.some.injEq]
      constructor
      · rintro rfl
        refine ⟨List.mem_cons_self, hq, fun y hy hyz => ?_⟩
        rcases List.mem_cons.mp hy with rfl | hmem
        · exact absurd hyz (hR hyz)
        · exact absurd hyz (hR (hz y hmem))
      · rintro ⟨hx, -, hleast⟩
        rcases List.mem_cons.mp hx with rfl | hmem
        · rfl
        · have hfalse := hleast z List.mem_cons_self (hz x hmem)
          rw [hq] at hfalse
          cases hfalse
    | false =>
      rw [List.find?_cons_of_neg (by simp [hq]), ih hl]
      constructor
      · rintro ⟨hx, hqx, hleast⟩
        refine ⟨List.mem_cons_of_mem _ hx, hqx, fun y hy hyx => ?_⟩
        rcases List.mem_cons.mp hy with rfl | hmem
        · exact hq
        · exact hleast y hmem hyx
      · rintro ⟨hx, hqx, hleast⟩
        rcases List.mem_cons.mp hx with rfl | hmem
        · rw [hq] at hqx
          cases hqx
        · exact ⟨hmem, hqx, fun y hy => hleast y (List.mem_cons_of_mem _ hy)⟩

end Order

variable {disks disks' : List GptDisk} {refA refB : EntryRef} {currentSlot targetSlot : AbSlot}
  {n n' : ℕ} {r : Run EntryRef EntryCopies}

/-- The partner of an entry is the first entry with the name of its second slot. -/
theorem partner_eq_some_iff (h : SlotPair disks refA refB) :
    (pairing disks).partner refA = some refB ↔ FirstOfName disks refB := by
  obtain ⟨entryA, entryB, base, hA, hB, hbase, htextA, htextB⟩ := h
  obtain ⟨hvalidA, rfl, husedA⟩ := usedEntry_iff.mp hA
  obtain ⟨hvalidB, rfl, husedB⟩ := usedEntry_iff.mp hB
  have hmatch {ref : EntryRef} (hvalid : ValidRef disks ref) :
      (gptEntryAt disks false ref).any (fun entry => !isGptEntryUnused entry &&
        areEntriesSlotPair (entryOf (rawEntry disks false refA)) entry) = true ↔
      ∃ entry, UsedEntry disks ref entry ∧
        entry.text = (entryOf (rawEntry disks false refB)).text := by
    rw [gptEntryAt_of_valid hvalid, Option.any_some, Bool.and_eq_true, Bool.not_eq_true']
    constructor
    · rintro ⟨hused, hpair⟩
      obtain ⟨base', -, htextA', htext⟩ := areEntriesSlotPair_iff.mp hpair
      rw [htextA] at htextA'
      have hsame : base = base' := List.append_cancel_right htextA'
      exact ⟨_, usedEntry_iff.mpr ⟨hvalid, rfl, hused⟩, by rw [htext, htextB, hsame]⟩
    · rintro ⟨entry, hentry, htext⟩
      obtain ⟨-, rfl, hused⟩ := usedEntry_iff.mp hentry
      exact ⟨hused, areEntriesSlotPair_iff.mpr ⟨base, hbase, htextA, htext.trans htextB⟩⟩
  change (gptEntryAt disks false refA).bind (findSlotBEntry disks) = _ ↔ _
  rw [gptEntryAt_of_valid hvalidA, Option.bind_some]
  unfold findSlotBEntry
  rw [find?_eq_some_iff_of_pairwise EntryRef.Before.asymm (pairwise_entryRefs disks)]
  constructor
  · rintro ⟨-, -, hleast⟩ ref' entry entry' hbefore hentry hentry' htext
    obtain ⟨hvalid', rfl, -⟩ := usedEntry_iff.mp hentry'
    obtain ⟨-, rfl, -⟩ := usedEntry_iff.mp hentry
    have hfalse := hleast ref' (mem_entryRefs.mpr hvalid') hbefore
    rw [(hmatch hvalid').mpr ⟨_, hentry', htext⟩] at hfalse
    cases hfalse
  · intro hfirst
    refine ⟨mem_entryRefs.mpr hvalidB, (hmatch hvalidB).mpr ⟨_, hB, rfl⟩, ?_⟩
    intro ref' hmem hbefore
    rw [← Bool.not_eq_true, hmatch (mem_entryRefs.mp hmem)]
    rintro ⟨entry', hentry', htext⟩
    exact hfirst ref' _ entry' hbefore hB hentry' htext

/-- The first entry that names a partner is the first of its own name. -/
theorem find?_partner_iff (h : SlotPair disks refA refB)
    (hpartner : (pairing disks).partner refA = some refB) :
    (slotARefs disks).find? (fun ref => (pairing disks).partner ref = some refB) = some refA ↔
      FirstOfName disks refA := by
  have hA := h.mem_slotARefs
  obtain ⟨entryA, entryB, base, husedA, husedB, hbase, htextA, htextB⟩ := h
  have hsorted : (slotARefs disks).Pairwise EntryRef.Before :=
    (pairwise_entryRefs disks).filter _
  rw [find?_eq_some_iff_of_pairwise EntryRef.Before.asymm hsorted]
  constructor
  · rintro ⟨-, -, hleast⟩ ref' entry entry' hbefore hentry hentry' htext
    have hsame : entry = entryA := Option.some.inj (hentry.1.symm.trans husedA.1)
    subst hsame
    have hpair : SlotPair disks ref' refB :=
      ⟨entry', entryB, base, hentry', husedB, hbase, htext.trans htextA, htextB⟩
    have hfirst := (partner_eq_some_iff ⟨entry, entryB, base, husedA, husedB, hbase, htextA,
      htextB⟩).mp hpartner
    have hfalse := hleast ref' hpair.mem_slotARefs hbefore
    rw [(partner_eq_some_iff hpair).mpr hfirst] at hfalse
    simp at hfalse
  · intro hfirst
    refine ⟨hA, by simp [hpartner], ?_⟩
    intro ref' hmem hbefore
    rw [decide_eq_false_iff_not]
    intro hpartner'
    obtain ⟨entryA', entryB', base', husedA', husedB', -, htextA', htextB'⟩ :=
      slotPair_of_partner hmem hpartner'
    have hsameB : entryB' = entryB := Option.some.inj (husedB'.1.symm.trans husedB.1)
    rw [hsameB, htextB] at htextB'
    have hbase' : base = base' := List.append_cancel_right htextB'
    exact hfirst ref' entryA entryA' hbefore husedA husedA' (by rw [htextA', htextA, hbase'])

/-- An entry that is not the first of its name is no partner, so no run changes it. -/
theorem run_of_not_first (hrun : run entryAccess (pairing disks) targetSlot
      ⟨copiesAt disks, []⟩ (slotARefs disks) = some r)
    (h : SlotPair disks refA refB) (hnot : ¬ FirstOfName disks refB) :
    r.state refB = copiesAt disks refB := by
  refine run_of_not_mem hrun ?_ ?_
  · obtain ⟨entryA, entryB, base, -, husedB, -, -, htextB⟩ := h
    obtain ⟨-, rfl, -⟩ := usedEntry_iff.mp husedB
    exact not_mem_slotARefs_of_text htextB
  · intro a ha hp
    exact hnot ((partner_eq_some_iff (slotPair_of_partner ha hp)).mp hp)

/-- A pair named by the two suffixes alone is not touched. -/
theorem run_of_not_slotPair (hrun : run entryAccess (pairing disks) targetSlot
      ⟨copiesAt disks, []⟩ (slotARefs disks) = some r)
    (h : NamedPair disks refA refB) (hnot : ¬ SlotPair disks refA refB) :
    r.state refA = copiesAt disks refA ∧ r.state refB = copiesAt disks refB := by
  obtain ⟨entryA, entryB, base, hA, hB, htextA, htextB⟩ := h
  have hbase : base = [] := by
    by_contra hne
    exact hnot ⟨entryA, entryB, base, hA, hB, hne, htextA, htextB⟩
  subst hbase
  have hslot {ref refA' refB' : EntryRef} (hp : SlotPair disks refA' refB')
      (hmem : ref = refA' ∨ ref = refB') {entry : EfiPartitionEntry}
      (hentry : UsedEntry disks ref entry) : 3 ≤ entry.text.length := by
    obtain ⟨entryA', entryB', base', hA', hB', hne, htextA', htextB'⟩ := hp
    have hpos := List.length_pos_of_ne_nil hne
    rcases hmem with rfl | rfl
    · rw [Option.some.inj (hentry.1.symm.trans hA'.1), htextA', List.length_append]
      change 3 ≤ base'.length + 2
      omega
    · rw [Option.some.inj (hentry.1.symm.trans hB'.1), htextB', List.length_append]
      change 3 ≤ base'.length + 2
      omega
  have hshort {ref : EntryRef} {entry : EfiPartitionEntry} {slot : BitVec 16}
      (hentry : UsedEntry disks ref entry) (htext : entry.text = [] ++ [charUnderscore, slot]) :
      r.state ref = copiesAt disks ref := by
    have hlen : entry.text.length = 2 := by
      rw [htext]
      rfl
    refine run_of_not_mem hrun ?_ ?_
    · intro hmem
      obtain ⟨-, rfl, -⟩ := usedEntry_iff.mp hentry
      have hslotA := (mem_slotARefs.mp hmem).2
      unfold isSlotA at hslotA
      rw [Bool.and_eq_true, doesPartitionNameEndWithSlot_iff] at hslotA
      omega
    · intro a ha hp
      have hge := hslot (slotPair_of_partner ha hp) (Or.inr rfl) hentry
      omega
  exact ⟨hshort hA htextA, hshort hB htextB⟩

theorem activeAt_of_tracks {state : List GptDisk × ℕ} {ref : EntryRef}
    (h : Tracks disks n state r) (hvalid : ValidRef disks ref) :
    ActiveAt state.1 ref ↔ entryAccess.active (r.state ref) = true := by
  rw [activeAt_iff, h.layout.tables.validRef, h.cells]
  exact and_iff_right hvalid

/-- A successful switch leaves an active slot pair on the target slot exactly when the
names of the pair were resolved. -/
theorem onTarget_iff_of_slotPair
    (h : switchAllGptPairs disks targetSlot.other targetSlot n = .ok (disks', n'))
    (hpair : ActivePair disks refA refB) :
    OnTarget disks' refA refB targetSlot ↔ NamesResolved disks refA refB targetSlot := by
  obtain ⟨r, hrun, htracks⟩ := switchAllGptPairs_tracks h
  obtain ⟨hslot, hactive⟩ := hpair
  have hA := hslot.mem_slotARefs
  have hvalidA := (mem_slotARefs.mp hA).1
  have hvalidB : ValidRef disks refB := by
    obtain ⟨-, entryB, -, -, hB, -⟩ := hslot
    exact (usedEntry_iff.mp hB).1
  have hafterA := activeAt_of_tracks htracks hvalidA
  have hafterB := activeAt_of_tracks htracks hvalidB
  rw [activeAt_iff, activeAt_iff, and_iff_right hvalidA, and_iff_right hvalidB] at hactive
  obtain ⟨refB', hpartner, -⟩ := hslot.exists_partner
  cases targetSlot with
  | a =>
    obtain ⟨hinactive, -, -⟩ := run_to_a (sided disks) hrun refA hA refB' hpartner
    change entryAccess.active (copiesAt disks refA) = false at hinactive
    have hBactive : entryAccess.active (copiesAt disks refB) = true :=
      hactive.resolve_left (by simp [hinactive])
    unfold OnTarget NamesResolved
    rw [hafterA, hafterB]
    by_cases hfirst : FirstOfName disks refB
    · have hp := (partner_eq_some_iff hslot).mpr hfirst
      obtain ⟨-, hB', hiff⟩ := run_to_a (sided disks) hrun refA hA refB hp
      rw [hiff, hB', find?_partner_iff hslot hp]
      change (entryAccess.active (copiesAt disks refB) = true ∧ _) ∧ _ ↔ _
      simp [hBactive, hfirst]
    · rw [run_of_not_first hrun hslot hfirst, hBactive]
      simp [hfirst]
  | b =>
    obtain ⟨-, hA', -⟩ := run_to_b (sided disks) hrun refA hA refB' hpartner
    unfold OnTarget NamesResolved
    rw [hafterA, hafterB, hA', activeAt_iff, and_iff_right hvalidB]
    by_cases hfirst : FirstOfName disks refB
    · have hp := (partner_eq_some_iff hslot).mpr hfirst
      obtain ⟨hB, -, himp⟩ := run_to_b (sided disks) hrun refA hA refB hp
      change entryAccess.active (copiesAt disks refB) = false at hB
      have hAactive : entryAccess.active (copiesAt disks refA) = true :=
        hactive.resolve_right (by simp [hB])
      simp [himp hAactive, hfirst]
    · rw [run_of_not_first hrun hslot hfirst]
      simp [hfirst]

theorem onTarget_iff (h : switchAllGptPairs disks targetSlot.other targetSlot n = .ok (disks', n'))
    (hnamed : NamedPair disks refA refB) (hactive : ActiveAt disks refA ∨ ActiveAt disks refB) :
    OnTarget disks' refA refB targetSlot ↔ Resolved disks refA refB targetSlot := by
  unfold Resolved
  by_cases hslot : SlotPair disks refA refB
  · rw [onTarget_iff_of_slotPair h ⟨hslot, hactive⟩]
    simp [hslot]
  · obtain ⟨r, hrun, htracks⟩ := switchAllGptPairs_tracks h
    obtain ⟨hkeepA, hkeepB⟩ := run_of_not_slotPair hrun hnamed hslot
    obtain ⟨entryA, entryB, base, hA, hB, -⟩ := hnamed
    have hvalidA := (usedEntry_iff.mp hA).1
    have hvalidB := (usedEntry_iff.mp hB).1
    have hsame {ref : EntryRef} (hvalid : ValidRef disks ref)
        (hkeep : r.state ref = copiesAt disks ref) : ActiveAt disks' ref ↔ ActiveAt disks ref := by
      rw [activeAt_of_tracks htracks hvalid, hkeep, activeAt_iff, and_iff_right hvalid]
    cases targetSlot with
    | a => simp [OnTarget, hslot, hsame hvalidA hkeepA, hsame hvalidB hkeepB]
    | b => simp [OnTarget, hslot, hsame hvalidA hkeepA, hsame hvalidB hkeepB]

/-- No pair of a disk is left behind exactly when every active pair of a disk is resolved. -/
theorem switchAllGptPairs_onTarget_iff (hslots : currentSlot ≠ targetSlot)
    (h : switchAllGptPairs disks currentSlot targetSlot n = .ok (disks', n')) :
    AllOnTarget disks disks' targetSlot ↔ AllResolved disks targetSlot := by
  rw [Slot.eq_other hslots] at h
  constructor
  · intro hall refA refB hdisk hnamed hactive
    exact (onTarget_iff h hnamed hactive).mp (hall refA refB hdisk hnamed hactive)
  · intro hall refA refB hdisk hnamed hactive
    exact (onTarget_iff h hnamed hactive).mpr (hall refA refB hdisk hnamed hactive)

theorem switchAllGptPairs_onTarget_iff_xbl :
    AllOnTarget [xblDisk] [xblSwitched] .b ↔ AllResolved [xblDisk] .b :=
  switchAllGptPairs_onTarget_iff (by decide) switchAllGptPairs_xbl

section Twin

/-- A storage with an `xbl_b` of its own in front of the storage with the pair. -/
def twinStores (device : ℕ) : Store Byte :=
  if device = 0 then smallStore efiCrc32 0 (namedEntry xblB 2 0) unusedEntry
  else smallStore efiCrc32 1 (namedEntry xblA 1 abSlotActiveAttribute) (namedEntry xblB 2 0)

def twinDisks : List GptDisk :=
  [smallDisk efiCrc32 0 (namedEntry xblB 2 0) unusedEntry,
    smallDisk efiCrc32 1 (namedEntry xblA 1 abSlotActiveAttribute) (namedEntry xblB 2 0)]

theorem loadGptDisks_twin :
    loadGptDisks efiCrc32 twinStores (.ok [smallHandle 0, smallHandle 1]) true = .ok twinDisks :=
  loadGptDisks_of_forall₂ efiCrc32 (List.cons_ne_nil _ _) (.cons
    (loadGptDisk_small efiCrc32 0 _ _ rfl) (.cons (loadGptDisk_small efiCrc32 1 _ _ rfl) .nil))

/-- The switch succeeds, and leaves the pair of the second storage with no active entry. -/
theorem switchAllGptPairs_twin :
    loadGptDisks efiCrc32 twinStores (.ok [smallHandle 0, smallHandle 1]) true = .ok twinDisks ∧
      ∃ disks', switchAllGptPairs twinDisks .a .b 0 = .ok (disks', 1) ∧
        ¬ AllOnTarget twinDisks disks' .b := by
  have heval : (switchAllGptPairs twinDisks .a .b 0).toOption.map (fun result =>
      ((gptEntryAt result.1 false ⟨1, 1⟩).map (·.attributes), result.2)) = some (some 0, 1) := by
    decide +kernel
  have hA : gptEntryAt twinDisks false ⟨1, 0⟩ =
      some (namedEntry xblA 1 abSlotActiveAttribute) := by decide +kernel
  have hB : gptEntryAt twinDisks false ⟨1, 1⟩ = some (namedEntry xblB 2 0) := by decide +kernel
  have hnamed : NamedPair twinDisks ⟨1, 0⟩ ⟨1, 1⟩ := by
    refine ⟨_, _, [0x78, 0x62, 0x6C], ⟨hA, ?_⟩, ⟨hB, ?_⟩, ?_, ?_⟩ <;> decide +kernel
  cases h : switchAllGptPairs twinDisks .a .b 0 with
  | error e =>
    rw [h] at heval
    cases heval
  | ok result =>
    obtain ⟨disks', n'⟩ := result
    rw [h, Except.toOption, Option.map_some, Option.some.injEq, Prod.mk.injEq] at heval
    obtain ⟨hentry, hn⟩ := heval
    dsimp only at hn hentry
    refine ⟨loadGptDisks_twin, disks', by rw [hn], fun hall => ?_⟩
    obtain ⟨⟨entry, hat, hbit⟩, -⟩ :=
      hall ⟨1, 0⟩ ⟨1, 1⟩ rfl hnamed (Or.inl ⟨_, hA, by decide⟩)
    rw [hat, Option.map_some, Option.some.injEq] at hentry
    rw [hentry] at hbit
    cases hbit

end Twin

end ProjectMu
