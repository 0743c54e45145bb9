import ProjectMu.GptActivePairs

/-!
# Detection and switching agree

Detection looks at the boot pair of one disk and, where that fails, at the pairs of all
disks. After a successful switch both see the target slot where they saw the current one,
so a detected slot can be switched to the other one and back.
-/

namespace ProjectMu

open ByteCodec ByteRange SlotSwitch

variable {disks disks' : List GptDisk} {slot : AbSlot}

/-- The slot that an entry of slot A shows together with its partner. -/
def seenAt (disks : List GptDisk) (ref : EntryRef) : Option AbSlot :=
  if ref ∈ slotARefs disks then observe entryAccess (pairing disks) (copiesAt disks) ref else none

theorem pairSlot_entries (refA refB : EntryRef) :
    pairSlot entryAccess (copiesAt disks refA) (copiesAt disks refB) =
      if isActive (entryOf (rawEntry disks false refA)) =
        isActive (entryOf (rawEntry disks false refB)) then none
      else some (if isActive (entryOf (rawEntry disks false refA)) then .a else .b) := by
  have hactive (ref : EntryRef) : entryAccess.active (copiesAt disks ref) =
      isActive (entryOf (rawEntry disks false ref)) := rfl
  rw [pairSlot, hactive, hactive]
  cases isActive (entryOf (rawEntry disks false refA)) <;>
    cases isActive (entryOf (rawEntry disks false refB)) <;> rfl

/-- How a slot that is seen changes the slot found so far. -/
def agree (found seen : Option AbSlot) : Except EfiError (Option AbSlot) :=
  match seen, found with
  | none, _ => .ok found
  | some s, none => .ok (some s)
  | some s, some t => if t ≠ s then .error .compromisedData else .ok found

theorem detectPair_eq (found : Option AbSlot) (ref : EntryRef) :
    detectPair disks found ref = agree found (seenAt disks ref) := by
  unfold detectPair seenAt
  by_cases hmem : ref ∈ slotARefs disks
  · obtain ⟨hvalid, hslot⟩ := mem_slotARefs.mp hmem
    rw [gptEntryAt_of_valid hvalid, Option.filter_some, if_pos hslot, if_pos hmem]
    have hpartner : (pairing disks).partner ref =
        findSlotBEntry disks (entryOf (rawEntry disks false ref)) := by
      change (gptEntryAt disks false ref).bind _ = _
      rw [gptEntryAt_of_valid hvalid, Option.bind_some]
    unfold observe
    dsimp only
    rw [hpartner]
    cases hfind : findSlotBEntry disks (entryOf (rawEntry disks false ref)) with
    | none => rfl
    | some refB =>
      have hpair : IsPair disks ref refB := isPair_of_partner (hpartner.trans hfind)
      simp only [Option.bind_some, gptEntryAt_of_valid hpair.validB, pairSlot_entries]
      split_ifs with hsame
      · rfl
      · cases found <;> rfl
      · cases found <;> rfl
  · rw [if_neg hmem]
    have hnone : (gptEntryAt disks false ref).filter isSlotA = none := by
      by_contra hsome
      obtain ⟨entry, he⟩ := Option.ne_none_iff_exists'.mp hsome
      obtain ⟨hat, hslot⟩ := Option.filter_eq_some_iff.mp he
      obtain ⟨hvalid, rfl⟩ := gptEntryAt_eq_some.mp hat
      exact hmem (mem_slotARefs.mpr ⟨hvalid, hslot⟩)
    rw [hnone]
    rfl

theorem foldlM_agree {refs : List EntryRef} {found : Option AbSlot} :
    refs.foldlM (detectPair disks) found = .ok (some slot) ↔
      (found = some slot ∨ found = none ∧ ∃ ref ∈ refs, seenAt disks ref = some slot) ∧
        ∀ ref ∈ refs, ∀ s, seenAt disks ref = some s → s = slot := by
  induction refs generalizing found with
  | nil =>
    change Except.ok found = _ ↔ _
    simp
  | cons ref refs ih =>
    rw [List.foldlM_cons, detectPair_eq]
    change (agree found (seenAt disks ref)).bind _ = _ ↔ _
    simp only [List.exists_mem_cons_iff, List.forall_mem_cons]
    cases hseen : seenAt disks ref with
    | none =>
      change refs.foldlM (detectPair disks) found = _ ↔ _
      rw [ih]
      simp
    | some s =>
      cases found with
      | none =>
        change refs.foldlM (detectPair disks) (some s) = _ ↔ _
        rw [ih]
        simp only [Option.some.injEq, reduceCtorEq, false_and, or_false, false_or, true_and,
          forall_eq']
        constructor
        · rintro ⟨rfl, hall⟩
          exact ⟨Or.inl rfl, rfl, hall⟩
        · rintro ⟨-, hs, hall⟩
          exact ⟨hs, hall⟩
      | some t =>
        by_cases hts : t = s
        · subst hts
          change (if t ≠ t then _ else _ : Except EfiError (Option AbSlot)).bind _ = _ ↔ _
          rw [if_neg (not_not.mpr rfl)]
          change refs.foldlM (detectPair disks) (some t) = _ ↔ _
          rw [ih]
          simp only [Option.some.injEq, reduceCtorEq, false_and, or_false, forall_eq']
          exact ⟨fun h => ⟨h.1, h.1, h.2⟩, fun h => ⟨h.1, h.2.2⟩⟩
        · change (if t ≠ s then _ else _ : Except EfiError (Option AbSlot)).bind _ = _ ↔ _
          rw [if_pos hts]
          refine iff_of_false (fun h => nomatch h) ?_
          simp only [Option.some.injEq, reduceCtorEq, false_and, or_false, forall_eq']
          rintro ⟨rfl, rfl, -⟩
          exact hts rfl

/-- The pairs give a slot when some pair shows it and no pair shows the other one. -/
theorem detectActiveSlotFromPairs_eq_ok : detectActiveSlotFromPairs disks = .ok slot ↔
    (∃ ref ∈ slotARefs disks, observe entryAccess (pairing disks) (copiesAt disks) ref =
      some slot) ∧
    ∀ ref ∈ slotARefs disks, ∀ s,
      observe entryAccess (pairing disks) (copiesAt disks) ref = some s → s = slot := by
  have hseen (ref : EntryRef) (s : AbSlot) : seenAt disks ref = some s ↔ ref ∈ slotARefs disks ∧
      observe entryAccess (pairing disks) (copiesAt disks) ref = some s := by
    unfold seenAt
    split_ifs with hmem <;> simp [hmem]
  have hvisit {ref : EntryRef} (hmem : ref ∈ slotARefs disks) : ref ∈ entryRefs disks :=
    mem_entryRefs.mpr (mem_slotARefs.mp hmem).1
  have hfold : detectActiveSlotFromPairs disks = .ok slot ↔
      (entryRefs disks).foldlM (detectPair disks) none = .ok (some slot) := by
    unfold detectActiveSlotFromPairs
    rw [except_bind_eq_ok]
    constructor
    · rintro ⟨found, hfold, hfound⟩
      cases found with
      | none => cases hfound
      | some s => rw [hfold, Except.ok.inj hfound]
    · intro hfold
      exact ⟨some slot, hfold, rfl⟩
  rw [hfold, foldlM_agree]
  simp only [reduceCtorEq, true_and, false_or, hseen]
  constructor
  · rintro ⟨⟨ref, -, hmem, hobs⟩, hall⟩
    exact ⟨⟨ref, hmem, hobs⟩, fun ref hmem s hobs => hall ref (hvisit hmem) s ⟨hmem, hobs⟩⟩
  · rintro ⟨⟨ref, hmem, hobs⟩, hall⟩
    exact ⟨⟨ref, hvisit hmem, hmem, hobs⟩, fun ref _ s h => hall ref h.1 s h.2⟩

end ProjectMu
