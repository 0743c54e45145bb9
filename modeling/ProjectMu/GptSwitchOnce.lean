import ProjectMu.SlotSwitchMatching
import ProjectMu.GptStaleSlots
import ProjectMu.GptSwitchEffect

/-!
# No entry is switched twice

Nothing marks an entry as switched, and names may repeat, so several entries of slot A may find
the same entry of slot B. The pairs for which `switchGptPair` returns success form a matching all
the same, because a second attempt finds the attributes of the first.
-/

namespace ProjectMu

open SlotSwitch

/-- The pair for which `switchGptPair` returns success in an iteration. -/
def switchedPair (currentSlot targetSlot : AbSlot) (state : List GptDisk × ℕ) (ref : EntryRef) :
    Option (EntryRef × EntryRef) :=
  match (gptEntryAt state.1 false ref).filter isSlotA with
  | none => none
  | some entryA =>
    match findSlotBEntry state.1 entryA with
    | none => none
    | some refB =>
      match switchGptPair state.1 ref refB currentSlot targetSlot with
      | .error _ => none
      | .ok _ => some (ref, refB)

/-- The pairs of all iterations, in their order. -/
def switchedPairs (currentSlot targetSlot : AbSlot) :
    List GptDisk × ℕ → List EntryRef → List (EntryRef × EntryRef)
  | _, [] => []
  | state, ref :: refs =>
    (switchedPair currentSlot targetSlot state ref).toList ++
      match switchEntry currentSlot targetSlot state ref with
      | .error _ => []
      | .ok state => switchedPairs currentSlot targetSlot state refs

/-- The counted pairs are a matching along which the primary type GUIDs were exchanged. -/
structure SwitchedOnce (disks disks' : List GptDisk) (pairCount pairCount' : ℕ)
    (pairs : List (EntryRef × EntryRef)) : Prop where
  count : pairCount' = pairCount + pairs.length
  matching : (endpoints pairs).Nodup
  exchanged : ∀ pair ∈ pairs, typeGuidAt disks' pair.1 = typeGuidAt disks pair.2 ∧
    typeGuidAt disks' pair.2 = typeGuidAt disks pair.1
  kept : ∀ ref, ref ∉ endpoints pairs → typeGuidAt disks' ref = typeGuidAt disks ref
  guids : ((entryRefs disks').map (typeGuidAt disks')).Perm
    ((entryRefs disks).map (typeGuidAt disks))

variable {disks disks' : List GptDisk} {currentSlot targetSlot : AbSlot} {n n' : ℕ}
  {state state' : List GptDisk × ℕ} {r r' : Run EntryRef EntryCopies} {ref : EntryRef}

/-- What an iteration does: nothing, or it switches and counts the pair of an entry. -/
theorem switchEntry_cases (h : switchEntry currentSlot targetSlot state ref = .ok state') :
    (switchedPair currentSlot targetSlot state ref = none ∧ state' = state) ∨
    ∃ refB disks', (pairing state.1).partner ref = some refB ∧
      switchedPair currentSlot targetSlot state ref = some (ref, refB) ∧
      state' = (disks', state.2 + 1) := by
  unfold switchEntry at h
  unfold switchedPair
  cases hentry : (gptEntryAt state.1 false ref).filter isSlotA with
  | none =>
    rw [hentry] at h
    cases h
    exact Or.inl ⟨rfl, rfl⟩
  | some entryA =>
    rw [hentry] at h
    dsimp only at h ⊢
    cases hfind : findSlotBEntry state.1 entryA with
    | none =>
      rw [hfind] at h
      cases h
      exact Or.inl ⟨rfl, rfl⟩
    | some refB =>
      rw [hfind] at h
      dsimp only at h ⊢
      cases hswitch : switchGptPair state.1 ref refB currentSlot targetSlot with
      | ok disks =>
        rw [hswitch] at h
        cases h
        obtain ⟨hat, -⟩ := Option.filter_eq_some_iff.mp hentry
        exact Or.inr ⟨refB, disks, Option.bind_eq_some_iff.mpr ⟨entryA, hat, hfind⟩, rfl, rfl⟩
      | error e =>
        rw [hswitch] at h
        cases e with
        | notReady =>
          cases h
          exact Or.inl ⟨rfl, rfl⟩
        | _ => cases h

/-- The log of a step has the pair that the iteration switches. -/
theorem Tracks.log_step (h : Tracks disks n state r) (h' : Tracks disks n state' r')
    (hstep : step entryAccess (pairing disks) targetSlot r ref = some r')
    (hentry : switchEntry currentSlot targetSlot state ref = .ok state') :
    r'.log = r.log ++ (switchedPair currentSlot targetSlot state ref).toList := by
  have hcount := h.count
  have hcount' := h'.count
  rcases switchEntry_cases hentry with ⟨hpair, rfl⟩ | ⟨refB, disks₁, hpartner, hpair, rfl⟩
  · rw [hpair, Option.toList_none, List.append_nil]
    rcases step_cases hstep with ⟨-, rfl⟩ | ⟨b, -, -, -, rfl⟩ | ⟨b, -, -, -, rfl⟩
    · rfl
    · rfl
    · rw [List.length_append, List.length_singleton] at hcount'
      omega
  · rw [hpair, Option.toList_some]
    rw [h.layout.pairing_eq] at hpartner
    rcases step_cases hstep with ⟨hnone, -⟩ | ⟨b, -, -, -, rfl⟩ | ⟨b, hb, -, -, rfl⟩
    · rw [hpartner] at hnone
      cases hnone
    · dsimp only at hcount'
      omega
    · rw [hpartner] at hb
      cases hb
      rfl

theorem Tracks.switchedPair_skip (h : Tracks disks n state r) (href : ref ∉ slotARefs disks) :
    switchedPair currentSlot targetSlot state ref = none := by
  unfold switchedPair
  rw [h.filter_isSlotA href]

/-- The log of a run has the pairs that the loop switches. -/
theorem Tracks.log_run {refs : List EntryRef} (h : Tracks disks n state r)
    (hrun : run entryAccess (pairing disks) targetSlot r
      (refs.filter (fun ref => ref ∈ slotARefs disks)) = some r') :
    r'.log = r.log ++ switchedPairs targetSlot.other targetSlot state refs := by
  induction refs generalizing state r with
  | nil =>
    cases hrun
    exact (List.append_nil _).symm
  | cons ref refs ih =>
    rw [switchedPairs]
    by_cases href : ref ∈ slotARefs disks
    · rw [List.filter_cons, if_pos (by simpa using href), run_cons] at hrun
      obtain ⟨r₁, hstep, htail⟩ := Option.bind_eq_some_iff.mp hrun
      have hsim := switchEntry_simulates targetSlot h href
      rw [hstep] at hsim
      obtain ⟨state₁, hentry, htracks⟩ := hsim
      rw [hentry, ih htracks htail, h.log_step htracks hstep hentry, List.append_assoc]
    · rw [List.filter_cons, if_neg (by simpa using href)] at hrun
      rw [h.switchedPair_skip href, switchEntry_skip h href]
      exact ih h hrun

/-- A partner is found among the entries, for an entry. -/
theorem mem_entryRefs_of_partner {refA refB : EntryRef}
    (h : (pairing disks).partner refA = some refB) :
    refA ∈ entryRefs disks ∧ refB ∈ entryRefs disks :=
  ⟨mem_entryRefs.mpr (isPair_of_partner h).validA, mem_entryRefs.mpr (isPair_of_partner h).validB⟩

theorem switchAllGptPairs_switchedOnce (hslots : currentSlot ≠ targetSlot)
    (h : switchAllGptPairs disks currentSlot targetSlot n = .ok (disks', n')) :
    SwitchedOnce disks disks' n n'
      (switchedPairs currentSlot targetSlot (disks, n) (entryRefs disks)) := by
  rw [Slot.eq_other hslots] at h ⊢
  obtain ⟨r, hrun, htracks⟩ := switchAllGptPairs_tracks h
  have hguid (ref : EntryRef) : typeGuidAt disks' ref = entryAccess.kind (r.state ref) :=
    congrArg entryAccess.kind (congrFun htracks.cells ref)
  have hkinds := run_kinds (sided disks) hrun (nodup_entryRefs disks)
    (fun _ _ _ hb => mem_entryRefs_of_partner hb)
  obtain ⟨switched, hlog, honce⟩ := run_switchesOnce (sided disks) hrun
  rw [List.nil_append] at hlog
  have hpairs : switched = switchedPairs targetSlot.other targetSlot (disks, n)
      (entryRefs disks) := by
    rw [← filter_mem_slotARefs] at hrun
    rw [← hlog, (tracks_refl disks n).log_run hrun]
    rfl
  rw [← hpairs]
  constructor
  · rw [← hlog]
    exact htracks.count
  · exact honce.nodup
  · intro pair hpair
    rw [hguid, hguid]
    exact honce.exchanged pair hpair
  · intro ref href
    rw [hguid, honce.kept ref href]
    rfl
  · rw [htracks.layout.tables.entryRefs]
    have hguids : typeGuidAt disks' = fun ref => entryAccess.kind (r.state ref) := funext hguid
    rw [hguids]
    exact hkinds

/-- One entry of slot A, and two entries of slot B with one name on two storages. -/
theorem switchAllGptPairs_switchedOnce_twin :
    ∃ disks' n', switchAllGptPairs twinDisks .a .b 0 = .ok (disks', n') ∧
      SwitchedOnce twinDisks disks' 0 n'
        (switchedPairs .a .b (twinDisks, 0) (entryRefs twinDisks)) := by
  have hsome : (switchAllGptPairs twinDisks .a .b 0).toOption.isSome = true := by decide +kernel
  cases h : switchAllGptPairs twinDisks .a .b 0 with
  | error e =>
    rw [h] at hsome
    cases hsome
  | ok result =>
    exact ⟨result.1, result.2, rfl, switchAllGptPairs_switchedOnce (by decide) h⟩

end ProjectMu
