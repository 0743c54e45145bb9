import ProjectMu.KeypadTextInRefines
import ProjectMu.KeypadTextInSteps

/-!
# Which keystrokes the callers of the keypad driver get

Over any run the keystrokes that leave the queue, followed by those still in it, are a
subsequence of those the driver took over, and all of them if each one found room when it was
pushed and no reset cleared one. Without partial keystrokes a read always comes to an end.
-/

namespace ProjectMu.KeypadTextIn

open RingQueue

variable {Q δ : Type} {s s' : KeypadLists δ} {p : KeypadPlatform δ}
  {taken : List EfiKeyData} {replies : List KeypadReply}

theorem pushBounded_sublist {α : Type} (n : ℕ) (l : List α) (a : α) :
    (pushBounded n l a).Sublist (l ++ [a]) := by
  rw [pushBounded]
  split
  · exact (List.tail_sublist l).append_right [a]
  · exact List.Sublist.refl _

theorem keyNotifyProcessHandler_keys (s : KeypadLists δ) :
    (keyNotifyProcessHandler s).efiKeyQueue = s.efiKeyQueue ∧
      (keyNotifyProcessHandler s).accepted = s.accepted := by
  rw [keyNotifyProcessHandler]
  split
  · exact ⟨rfl, rfl⟩
  · split <;> exact ⟨rfl, rfl⟩

theorem dispatchNotify_keys (s : KeypadLists δ) :
    (dispatchNotify s).efiKeyQueue = s.efiKeyQueue ∧
      (dispatchNotify s).accepted = s.accepted := by
  rw [dispatchNotify]
  split <;> exact ⟨rfl, rfl⟩

/-- What a move does to the queue of keystrokes: one is added at its end, one leaves at its
front, or it stays. -/
theorem Move.keys (h : Move s taken s') :
    (taken = [] ∧ s'.efiKeyQueue = s.efiKeyQueue ∧ s'.accepted = s.accepted) ∨
      (∃ keyData, taken = [] ∧
        s'.efiKeyQueue = pushBounded (keypadEfiKeyMaxCount - 1) s.efiKeyQueue keyData ∧
        s'.accepted = s.accepted ++ [keyData]) ∨
      s.efiKeyQueue = taken ++ s'.efiKeyQueue ∧ s'.accepted = s.accepted := by
  cases h with
  | quiet hsame => exact .inl ⟨rfl, hsame.keys, hsame.accepted⟩
  | push keyData hdrop =>
    exact .inr (.inl ⟨keyData, rfl, (pushed hdrop).keys, (pushed hdrop).accepted⟩)
  | take hpop =>
    cases hkeys : s.efiKeyQueue with
    | nil =>
      rw [hkeys] at hpop
      cases hpop
    | cons first keys =>
      rw [hkeys] at hpop
      obtain rfl : first = _ := Except.ok.inj hpop
      exact .inr (.inr ⟨rfl, rfl⟩)
  | miss hpop =>
    cases hkeys : s.efiKeyQueue with
    | nil => exact .inl ⟨rfl, rfl, rfl⟩
    | cons first keys =>
      rw [hkeys] at hpop
      cases hpop
  | dispatch => exact .inl ⟨rfl, dispatchNotify_keys s⟩
  | process => exact .inl ⟨rfl, keyNotifyProcessHandler_keys s⟩

theorem Path.sublist (h : Path s taken s') (got : List EfiKeyData)
    (hs : (got ++ s.efiKeyQueue).Sublist s.accepted) :
    (got ++ taken ++ s'.efiKeyQueue).Sublist s'.accepted := by
  induction h generalizing got with
  | refl s =>
    rw [List.append_nil]
    exact hs
  | step hmove _ ih =>
    rw [← List.append_assoc]
    apply ih
    rcases hmove.keys with ⟨rfl, hkeys, haccepted⟩ | ⟨keyData, rfl, hkeys, haccepted⟩ |
      ⟨hkeys, haccepted⟩
    · rw [hkeys, haccepted, List.append_nil]
      exact hs
    · rw [hkeys, haccepted, List.append_nil]
      refine ((pushBounded_sublist _ _ keyData).append_left got).trans ?_
      rw [← List.append_assoc]
      exact hs.append_right [keyData]
    · rw [haccepted, List.append_assoc, ← hkeys]
      exact hs

theorem run_sublist {calls : List KeypadCall} {got : List EfiKeyData}
    (hs : (got ++ s.efiKeyQueue).Sublist s.accepted)
    (h : run p s calls = some (replies, s')) :
    ∃ keys, Received replies keys ∧ (got ++ keys ++ s'.efiKeyQueue).Sublist s'.accepted := by
  induction calls generalizing s got replies with
  | nil =>
    obtain ⟨rfl, rfl⟩ : [] = replies ∧ s = s' := Prod.mk.inj (Option.some.inj h)
    exact ⟨[], .nil, by rwa [List.append_nil]⟩
  | cons call calls ih =>
    obtain ⟨reply, s₁, rest, hstep, hrun, rfl⟩ := run_cons h
    rcases step_spec hstep with ⟨-, taken, hpath, hreceived⟩ | ⟨-, hreply, hcleared⟩ |
      ⟨-, hreply, notifyList, rfl⟩
    · obtain ⟨keys, hkeys, hsub⟩ := ih (hpath.sublist got hs) hrun
      refine ⟨taken ++ keys, hreceived.append hkeys, ?_⟩
      rw [← List.append_assoc]
      exact hsub
    · have hempty : (got ++ s₁.efiKeyQueue).Sublist s₁.accepted := by
        have hkeys : s₁.efiKeyQueue = [] := hcleared.keys
        rw [hkeys, hcleared.accepted, List.append_nil]
        exact (List.sublist_append_left got s.efiKeyQueue).trans hs
      obtain ⟨keys, hkeys, hsub⟩ := ih hempty hrun
      exact ⟨keys, .other hreply hkeys, hsub⟩
    · obtain ⟨keys, hkeys, hsub⟩ := ih (s := { s with notifyList := notifyList }) hs hrun
      exact ⟨keys, .other hreply hkeys, hsub⟩

/-- The number of keystrokes in a ring. -/
def pendingCount (queue : EfiKeyQueue) : ℕ :=
  (queue.tail + keypadEfiKeyMaxCount - queue.head) % keypadEfiKeyMaxCount

theorem pendingCount_eq {queue : EfiKeyQueue} {keys : List EfiKeyData}
    (h : Represents queue keys) : pendingCount queue = keys.length := by
  have hhead := h.head_lt
  have hlength := h.length_lt
  have htail := h.tail_eq
  rw [pendingCount, htail]
  simp only [keypadEfiKeyMaxCount] at *
  omega

/-- From a zeroed device on, what the callers got or skipped as partial, followed by what is
still pending, is a subsequence of what was taken over. -/
theorem run_delivers (p : KeypadPlatform δ) (device : δ) (calls : List KeypadCall)
    {s : KeypadTextIn EfiKeyQueue δ}
    (h : run p (initial device zeroKeyQueue) calls = some (replies, s)) :
    ∃ keys pending, Received replies keys ∧ Represents s.efiKeyQueue pending ∧
      (keys ++ pending).Sublist s.accepted := by
  obtain ⟨keys, notify, hkeys, -, hrun⟩ := exists_lists (initial_alike device) h
  obtain ⟨got, hgot, hsub⟩ := @run_sublist _ _ _ p _ calls [] (List.Sublist.refl _) hrun
  exact ⟨got, keys, hgot, hkeys, hsub⟩

theorem run_delivers_scanUp :
    ∃ (keys pending : List EfiKeyData) (s : KeypadTextIn EfiKeyQueue Unit),
      Received [.keyData (.ok scanUpKey), .done] keys ∧ Represents s.efiKeyQueue pending ∧
        (keys ++ pending).Sublist s.accepted := by
  obtain ⟨keys, pending, h⟩ := run_delivers (constantKeypad [scanUpKey]) ()
    [.readKeyStrokeEx true, .timer] rfl
  exact ⟨keys, pending, _, h⟩

theorem Path.accepted_le (h : Path s taken s') : s.accepted.length ≤ s'.accepted.length := by
  induction h with
  | refl => exact le_rfl
  | step hmove _ ih =>
    refine le_trans ?_ ih
    rcases hmove.keys with ⟨-, -, haccepted⟩ | ⟨keyData, -, -, haccepted⟩ | ⟨-, haccepted⟩
    · rw [haccepted]
    · rw [haccepted, List.length_append]
      exact Nat.le_add_right _ _
    · rw [haccepted]

/-- With room for every keystroke that is taken over, nothing is dropped. -/
theorem Path.exact (h : Path s taken s') (got : List EfiKeyData)
    (hs : got ++ s.efiKeyQueue = s.accepted)
    (hroom : s.efiKeyQueue.length + (s'.accepted.length - s.accepted.length) <
      keypadEfiKeyMaxCount) :
    got ++ taken ++ s'.efiKeyQueue = s'.accepted := by
  induction h generalizing got with
  | refl s =>
    rw [List.append_nil]
    exact hs
  | @step s _ s₁ _ _ hmove hrest ih =>
    have hle := hrest.accepted_le
    rw [← List.append_assoc]
    rcases hmove.keys with ⟨rfl, hkeys, haccepted⟩ | ⟨keyData, rfl, hkeys, haccepted⟩ |
      ⟨hkeys, haccepted⟩
    · apply ih
      · rw [hkeys, haccepted, List.append_nil]
        exact hs
      · rw [hkeys, haccepted]
        exact hroom
    · rw [haccepted, List.length_append, List.length_singleton] at hle
      have hnotFull : s.efiKeyQueue.length ≠ keypadEfiKeyMaxCount - 1 := by omega
      rw [pushBounded, if_neg hnotFull] at hkeys
      apply ih
      · rw [hkeys, haccepted, List.append_nil, ← List.append_assoc, hs]
      · rw [hkeys, haccepted, List.length_append, List.length_append, List.length_singleton]
        omega
    · apply ih
      · rw [haccepted, List.append_assoc, ← hkeys]
        exact hs
      · have hlength := congrArg List.length hkeys
        rw [List.length_append] at hlength
        rw [haccepted]
        omega

section
variable [KeyQueue Q]

/-- Each keystroke that a poll takes over finds room. Nothing leaves the queue meanwhile. -/
def RoomForPoll (pending : Q → ℕ) (p : KeypadPlatform δ) (s : KeypadTextIn Q δ) : Prop :=
  pending s.efiKeyQueue + ((keypadTimerHandler p s).accepted.length - s.accepted.length) <
    keypadEfiKeyMaxCount

/-- Each pass of the loop takes a keystroke off the queue before the next one polls. -/
def RoomForRead (pending : Q → ℕ) (p : KeypadPlatform δ) : ℕ → KeypadTextIn Q δ → Prop
  | 0, _ => True
  | n + 1, s => RoomForPoll pending p s ∧
    match keypadReadKeyStrokeWorker p s with
    | (.error _, _) => True
    | (.ok keyData, s) => keyData.IsPartial → RoomForRead pending p n s

/-- Each keystroke finds room when it is pushed, and a reset has none to clear or is refused. -/
def RoomFor (pending : Q → ℕ) (p : KeypadPlatform δ) (s : KeypadTextIn Q δ)
    (call : KeypadCall) (_ : KeypadTextIn Q δ) : Prop :=
  match call with
  | .timer => RoomForPoll pending p s
  | .readKeyStroke passes => RoomForRead pending p passes s
  | .readKeyStrokeEx keyData => keyData = true → RoomForPoll pending p s
  | .waitForKey => RoomForPoll pending p s
  | .reset => s.keypadErr = true ∨ pending s.efiKeyQueue = 0
  | _ => True

end

section
variable {r : KeypadTextIn EfiKeyQueue δ}
  (halike : Alike (Represents : EfiKeyQueue → List EfiKeyData → Prop) r s)
include halike

theorem pendingCount_alike : pendingCount r.efiKeyQueue = s.efiKeyQueue.length := by
  obtain ⟨keys, notify, hkeys, -, rfl⟩ := halike
  exact pendingCount_eq hkeys

theorem accepted_alike : s.accepted = r.accepted ∧ s.keypadErr = r.keypadErr := by
  obtain ⟨keys, notify, -, -, rfl⟩ := halike
  exact ⟨rfl, rfl⟩

theorem roomForPoll_alike (h : RoomForPoll pendingCount p r) : RoomForPoll List.length p s := by
  rw [RoomForPoll, pendingCount_alike halike] at h
  rwa [RoomForPoll, (accepted_alike halike).1,
    (accepted_alike (keypadTimerHandler_alike p efiKeyQueue_refines halike)).1]

end

theorem roomForRead_alike (n : ℕ) {r : KeypadTextIn EfiKeyQueue δ}
    (halike : Alike (Represents : EfiKeyQueue → List EfiKeyData → Prop) r s)
    (h : RoomForRead pendingCount p n r) : RoomForRead List.length p n s := by
  induction n generalizing r s with
  | zero => trivial
  | succ n ih =>
    refine ⟨roomForPoll_alike halike h.1, ?_⟩
    have hrest := h.2
    obtain ⟨hreply, hworker⟩ := keypadReadKeyStrokeWorker_alike p efiKeyQueue_refines halike
    generalize keypadReadKeyStrokeWorker p r = result at hreply hworker hrest
    generalize keypadReadKeyStrokeWorker p s = result' at hreply hworker
    obtain ⟨reply, r⟩ := result
    obtain ⟨reply', s⟩ := result'
    obtain rfl : reply = reply' := hreply
    cases reply with
    | error e => trivial
    | ok keyData => exact fun hskipped => ih hworker (hrest hskipped)

theorem roomFor_alike {call : KeypadCall} {r r₁ : KeypadTextIn EfiKeyQueue δ}
    (halike : Alike (Represents : EfiKeyQueue → List EfiKeyData → Prop) r s)
    (h : RoomFor pendingCount p r call r₁) : RoomFor List.length p s call s' := by
  cases call with
  | timer => exact roomForPoll_alike halike h
  | readKeyStroke passes => exact roomForRead_alike passes halike h
  | readKeyStrokeEx keyData => exact fun hbuffer => roomForPoll_alike halike (h hbuffer)
  | waitForKey => exact roomForPoll_alike halike h
  | reset =>
    rw [RoomFor, ← (accepted_alike halike).2, pendingCount_alike halike] at h
    exact h
  | _ => trivial

theorem keypadTimerHandler_exact {got : List EfiKeyData}
    (hs : got ++ s.efiKeyQueue = s.accepted) (hroom : RoomForPoll List.length p s) :
    got ++ (keypadTimerHandler p s).efiKeyQueue = (keypadTimerHandler p s).accepted := by
  have hexact := (keypadTimerHandler_path p s).exact got hs hroom
  rwa [List.append_nil] at hexact

theorem keypadReadKeyStrokeWorker_exact {got : List EfiKeyData}
    (hs : got ++ s.efiKeyQueue = s.accepted) (hroom : RoomForPoll List.length p s) :
    (∃ e, (keypadReadKeyStrokeWorker p s).1 = .error e ∧
        got ++ (keypadReadKeyStrokeWorker p s).2.efiKeyQueue =
          (keypadReadKeyStrokeWorker p s).2.accepted) ∨
      ∃ keyData, (keypadReadKeyStrokeWorker p s).1 = .ok keyData ∧
        got ++ [keyData] ++ (keypadReadKeyStrokeWorker p s).2.efiKeyQueue =
          (keypadReadKeyStrokeWorker p s).2.accepted := by
  have hpolled := keypadTimerHandler_exact hs hroom
  rw [keypadReadKeyStrokeWorker]
  dsimp only
  split
  · exact .inl ⟨efiDeviceError, rfl, hpolled⟩
  · cases hkeys : (keypadTimerHandler p s).efiKeyQueue with
    | nil =>
      rw [hkeys] at hpolled
      exact .inl ⟨_, rfl, hpolled⟩
    | cons keyData keys =>
      rw [hkeys, List.append_cons] at hpolled
      exact .inr ⟨keyData, rfl, hpolled⟩

theorem keypadReadKeyStroke_exact {key : Except EfiError EfiInputKey} (n : ℕ)
    {got : List EfiKeyData} (hs : got ++ s.efiKeyQueue = s.accepted)
    (hroom : RoomForRead List.length p n s)
    (h : keypadReadKeyStroke p n s = some (key, s')) :
    ∃ taken, Received [.inputKey key] taken ∧ got ++ taken ++ s'.efiKeyQueue = s'.accepted := by
  induction n generalizing s got with
  | zero => cases h
  | succ n ih =>
    have hread := keypadReadKeyStrokeWorker_exact hs hroom.1
    have hrest := hroom.2
    rw [keypadReadKeyStroke] at h
    generalize keypadReadKeyStrokeWorker p s = r at h hread hrest
    obtain ⟨result, s₁⟩ := r
    rcases hread with ⟨e, hresult, hexact⟩ | ⟨keyData, hresult, hexact⟩
    · obtain rfl : result = .error e := hresult
      obtain ⟨rfl, rfl⟩ : Except.error e = key ∧ s₁ = s' := by simpa using h
      exact ⟨[], received_noKey trivial, by rwa [List.append_nil]⟩
    · obtain rfl : result = .ok keyData := hresult
      dsimp only at h
      split at h
      · next hskipped =>
        obtain ⟨taken, hreceived, hall⟩ := ih hexact (hrest hskipped) h
        refine ⟨keyData :: taken, .skipped hskipped hreceived, ?_⟩
        rwa [List.append_cons]
      · next hskipped =>
        obtain ⟨rfl, rfl⟩ : Except.ok keyData.toInputKey = key ∧ s₁ = s' := by simpa using h
        exact ⟨[keyData], .inputKey keyData hskipped .nil, hexact⟩

/-- What the wait event takes off the queue was at its front. -/
theorem skipPartialKeys_exact (n : ℕ) (keys : List EfiKeyData) :
    ∃ taken, Received [] taken ∧ keys = taken ++ (skipPartialKeys n keys).2 := by
  induction n generalizing keys with
  | zero => exact ⟨[], .nil, rfl⟩
  | succ n ih =>
    cases keys with
    | nil => exact ⟨[], .nil, rfl⟩
    | cons keyData keys =>
      by_cases hskipped : keyData.IsPartial
      · obtain ⟨taken, hreceived, hkeys⟩ := ih keys
        have hskip : skipPartialKeys (n + 1) (keyData :: keys) = skipPartialKeys n keys :=
          if_pos hskipped
        refine ⟨keyData :: taken, .skipped hskipped hreceived, ?_⟩
        rw [hskip, List.cons_append, ← hkeys]
      · have hstop : skipPartialKeys (n + 1) (keyData :: keys) = (true, keyData :: keys) :=
          if_neg hskipped
        exact ⟨[], .nil, by rw [hstop, List.nil_append]⟩

theorem keypadWaitForKey_exact {got : List EfiKeyData}
    (hs : got ++ s.efiKeyQueue = s.accepted) (hroom : RoomForPoll List.length p s) :
    ∃ taken, Received [] taken ∧ got ++ taken ++ (keypadWaitForKey p s).2.efiKeyQueue =
      (keypadWaitForKey p s).2.accepted := by
  have hpolled := keypadTimerHandler_exact hs hroom
  rw [keypadWaitForKey]
  dsimp only
  split
  · exact ⟨[], .nil, by rwa [List.append_nil]⟩
  · obtain ⟨taken, hreceived, hkeys⟩ :=
      skipPartialKeys_exact keypadEfiKeyMaxCount (keypadTimerHandler p s).efiKeyQueue
    refine ⟨taken, hreceived, ?_⟩
    rw [hkeys, ← List.append_assoc] at hpolled
    exact hpolled

theorem keypadReadKeyStrokeEx_exact {keyData : Bool} {got : List EfiKeyData}
    (hs : got ++ s.efiKeyQueue = s.accepted)
    (hroom : keyData = true → RoomForPoll List.length p s) :
    ∃ taken, Received [.keyData (keypadReadKeyStrokeEx p keyData s).1] taken ∧
      got ++ taken ++ (keypadReadKeyStrokeEx p keyData s).2.efiKeyQueue =
        (keypadReadKeyStrokeEx p keyData s).2.accepted := by
  cases keyData with
  | false => exact ⟨[], received_noKey trivial, by rw [List.append_nil]; exact hs⟩
  | true =>
    change ∃ taken, Received [.keyData (keypadReadKeyStrokeWorker p s).1] taken ∧
      got ++ taken ++ (keypadReadKeyStrokeWorker p s).2.efiKeyQueue =
        (keypadReadKeyStrokeWorker p s).2.accepted
    rcases keypadReadKeyStrokeWorker_exact hs (hroom rfl) with ⟨e, hresult, hexact⟩ |
      ⟨key, hresult, hexact⟩
    · rw [hresult]
      exact ⟨[], received_noKey trivial, by rwa [List.append_nil]⟩
    · rw [hresult]
      exact ⟨[key], .keyData key .nil, hexact⟩

/-- A reset that is refused, or that finds nothing, loses nothing. -/
theorem keypadEfiReset_keys (hroom : s.keypadErr = true ∨ s.efiKeyQueue.length = 0) :
    (keypadEfiReset p s).2.efiKeyQueue = s.efiKeyQueue ∧
      (keypadEfiReset p s).2.accepted = s.accepted := by
  rw [keypadEfiReset]
  split_ifs with herr
  · exact ⟨rfl, rfl⟩
  · exact ⟨(List.length_eq_zero_iff.mp (hroom.resolve_left herr)).symm, rfl⟩

theorem step_exact {call : KeypadCall} {reply : KeypadReply} {got : List EfiKeyData}
    (hs : got ++ s.efiKeyQueue = s.accepted) (hroom : RoomFor List.length p s call s')
    (h : step p s call = some (reply, s')) :
    ∃ taken, Received [reply] taken ∧ got ++ taken ++ s'.efiKeyQueue = s'.accepted := by
  have hquiet (hreply : NoKey reply)
      (hkeys : s'.efiKeyQueue = s.efiKeyQueue ∧ s'.accepted = s.accepted) :
      ∃ taken, Received [reply] taken ∧ got ++ taken ++ s'.efiKeyQueue = s'.accepted := by
    refine ⟨[], received_noKey hreply, ?_⟩
    rw [List.append_nil, hkeys.1, hkeys.2]
    exact hs
  cases call with
  | error =>
    obtain ⟨rfl, rfl⟩ : KeypadReply.done = reply ∧ keypadError s = s' :=
      Prod.mk.inj (Option.some.inj h)
    exact hquiet trivial ⟨rfl, rfl⟩
  | timer =>
    obtain ⟨rfl, rfl⟩ : KeypadReply.done = reply ∧ keypadTimerHandler p s = s' :=
      Prod.mk.inj (Option.some.inj h)
    refine ⟨[], received_noKey trivial, ?_⟩
    rw [List.append_nil]
    exact keypadTimerHandler_exact hs hroom
  | readKeyStroke passes =>
    rw [step, Option.map_eq_some_iff] at h
    obtain ⟨⟨key, s₁⟩, hread, hresult⟩ := h
    obtain ⟨rfl, rfl⟩ : KeypadReply.inputKey key = reply ∧ s₁ = s' := by simpa using hresult
    exact keypadReadKeyStroke_exact passes hs hroom hread
  | readKeyStrokeEx keyData =>
    obtain ⟨rfl, rfl⟩ : KeypadReply.keyData (keypadReadKeyStrokeEx p keyData s).1 = reply ∧
        (keypadReadKeyStrokeEx p keyData s).2 = s' := eq_of_some_map h
    exact keypadReadKeyStrokeEx_exact hs hroom
  | waitForKey =>
    obtain ⟨rfl, rfl⟩ : KeypadReply.signaled (keypadWaitForKey p s).1 = reply ∧
        (keypadWaitForKey p s).2 = s' := eq_of_some_map h
    obtain ⟨taken, hreceived, hexact⟩ := keypadWaitForKey_exact hs hroom
    exact ⟨taken, .other trivial hreceived, hexact⟩
  | reset =>
    obtain ⟨rfl, rfl⟩ : KeypadReply.status (keypadEfiReset p s).1 = reply ∧
        (keypadEfiReset p s).2 = s' := eq_of_some_map h
    exact hquiet trivial (keypadEfiReset_keys hroom)
  | setState state =>
    obtain ⟨rfl, rfl⟩ : KeypadReply.status (keypadSetState state s).1 = reply ∧
        (keypadSetState state s).2 = s' := eq_of_some_map h
    have hsame := keypadSetState_sameWork state s
    exact hquiet trivial ⟨hsame.keys, hsame.accepted⟩
  | registerKeyNotify keyData fn notifyHandle pool =>
    obtain ⟨rfl, rfl⟩ : KeypadReply.notifyHandle
          (keypadRegisterKeyNotify keyData fn notifyHandle pool s).1 = reply ∧
        (keypadRegisterKeyNotify keyData fn notifyHandle pool s).2 = s' := eq_of_some_map h
    obtain ⟨notifyList, heq⟩ := keypadRegisterKeyNotify_eq keyData fn notifyHandle pool s
    exact hquiet trivial (by rw [heq]; exact ⟨rfl, rfl⟩)
  | unregisterKeyNotify handle =>
    obtain ⟨rfl, rfl⟩ : KeypadReply.status (keypadUnregisterKeyNotify handle s).1 = reply ∧
        (keypadUnregisterKeyNotify handle s).2 = s' := eq_of_some_map h
    obtain ⟨notifyList, heq⟩ := keypadUnregisterKeyNotify_eq handle s
    exact hquiet trivial (by rw [heq]; exact ⟨rfl, rfl⟩)
  | dispatch =>
    obtain ⟨rfl, rfl⟩ : KeypadReply.done = reply ∧ dispatchNotify s = s' :=
      Prod.mk.inj (Option.some.inj h)
    exact hquiet trivial (dispatchNotify_keys s)
  | process =>
    obtain ⟨rfl, rfl⟩ : KeypadReply.done = reply ∧ keyNotifyProcessHandler s = s' :=
      Prod.mk.inj (Option.some.inj h)
    exact hquiet trivial (keyNotifyProcessHandler_keys s)

theorem run_exact {calls : List KeypadCall} {got : List EfiKeyData}
    (hs : got ++ s.efiKeyQueue = s.accepted)
    (hroom : EveryCall (RoomFor List.length p) p s calls)
    (h : run p s calls = some (replies, s')) :
    ∃ keys, Received replies keys ∧ got ++ keys ++ s'.efiKeyQueue = s'.accepted := by
  induction calls generalizing s got replies with
  | nil =>
    obtain ⟨rfl, rfl⟩ : [] = replies ∧ s = s' := Prod.mk.inj (Option.some.inj h)
    exact ⟨[], .nil, by rwa [List.append_nil]⟩
  | cons call calls ih =>
    obtain ⟨reply, s₁, rest, hstep, hrun, rfl⟩ := run_cons h
    rw [EveryCall, hstep] at hroom
    obtain ⟨taken, hreceived, hexact⟩ := step_exact hs hroom.1 hstep
    obtain ⟨keys, hkeys, hall⟩ := ih hexact hroom.2 hrun
    refine ⟨taken ++ keys, hreceived.append hkeys, ?_⟩
    rw [← List.append_assoc]
    exact hall

/-- As long as each keystroke finds room when it is pushed and no reset clears one, what the
callers got or skipped as partial, followed by what is still pending, is all that was taken
over. -/
theorem run_delivers_all (p : KeypadPlatform δ) (device : δ) (calls : List KeypadCall)
    {s : KeypadTextIn EfiKeyQueue δ}
    (hroom : EveryCall (RoomFor pendingCount p) p (initial device zeroKeyQueue) calls)
    (h : run p (initial device zeroKeyQueue) calls = some (replies, s)) :
    ∃ keys pending, Received replies keys ∧ Represents s.efiKeyQueue pending ∧
      keys ++ pending = s.accepted := by
  obtain ⟨keys, notify, hkeys, -, hrun⟩ := exists_lists (initial_alike device) h
  have hlists : EveryCall (RoomFor List.length p) p
      (initial device ([] : List EfiKeyData)) calls :=
    EveryCall.alike p efiKeyQueue_refines calls
      (fun _ halike _ hcall => roomFor_alike halike hcall) (initial_alike device) hroom
  have hnil : [] ++ (initial device ([] : List EfiKeyData)).efiKeyQueue =
      (initial device ([] : List EfiKeyData)).accepted := rfl
  obtain ⟨got, hgot, hall⟩ := run_exact hnil hlists hrun
  exact ⟨got, keys, hgot, hkeys, hall⟩

theorem run_delivers_all_scanUp :
    ∃ (keys pending : List EfiKeyData) (s : KeypadTextIn EfiKeyQueue Unit),
      Received [.keyData (.ok scanUpKey), .done] keys ∧ Represents s.efiKeyQueue pending ∧
        keys ++ pending = s.accepted := by
  obtain ⟨keys, pending, h⟩ := run_delivers_all (constantKeypad [scanUpKey]) ()
    [.readKeyStrokeEx true, .timer]
    ⟨fun _ => (by decide : _ < keypadEfiKeyMaxCount), (by decide : _ < keypadEfiKeyMaxCount),
      trivial⟩ rfl
  exact ⟨keys, pending, _, h⟩

/-- How many partial keystrokes wait in the queue. -/
def partialCount (s : KeypadLists δ) : ℕ :=
  s.efiKeyQueue.countP (fun keyData => keyData.IsPartial)

theorem pushKeys_partialCount (keys : List EfiKeyData) (hs : s.isSupportPartialKey = false) :
    (pushKeys keys s).isSupportPartialKey = false ∧
      partialCount (pushKeys keys s) ≤ partialCount s := by
  induction keys generalizing s with
  | nil => exact ⟨hs, le_rfl⟩
  | cons keyData keys ih =>
    change (pushKeys keys (keypadReturnApiPushEfikeyBufTail keyData s)).isSupportPartialKey = _ ∧
      partialCount (pushKeys keys (keypadReturnApiPushEfikeyBufTail keyData s)) ≤ _
    by_cases hskipped : keyData.IsPartial
    · have hpush : keypadReturnApiPushEfikeyBufTail keyData s = s := if_pos ⟨hskipped, hs⟩
      rw [hpush]
      exact ih hs
    · have hpushed := pushed (fun h : keyData.IsPartial ∧ s.isSupportPartialKey = false =>
        hskipped h.1)
      obtain ⟨hoff, hle⟩ := ih (hpushed.partialKey.trans hs)
      refine ⟨hoff, hle.trans ?_⟩
      rw [partialCount, hpushed.keys, partialCount]
      refine (pushBounded_sublist _ _ keyData).countP_le.trans ?_
      rw [List.countP_append, List.countP_singleton, if_neg (by simpa using hskipped)]
      exact (Nat.add_zero _).le

theorem keypadTimerHandler_partialCount (p : KeypadPlatform δ)
    (hs : s.isSupportPartialKey = false) :
    (keypadTimerHandler p s).isSupportPartialKey = false ∧
      partialCount (keypadTimerHandler p s) ≤ partialCount s := by
  rw [keypadTimerHandler]
  split
  · exact ⟨hs, le_rfl⟩
  · exact pushKeys_partialCount _ hs

theorem keypadReadKeyStrokeWorker_partialCount (p : KeypadPlatform δ)
    (hs : s.isSupportPartialKey = false) :
    (∃ e, (keypadReadKeyStrokeWorker p s).1 = .error e) ∨
      ∃ keyData, (keypadReadKeyStrokeWorker p s).1 = .ok keyData ∧
        (keypadReadKeyStrokeWorker p s).2.isSupportPartialKey = false ∧
        (keyData.IsPartial → partialCount (keypadReadKeyStrokeWorker p s).2 < partialCount s) := by
  obtain ⟨hoff, hle⟩ := keypadTimerHandler_partialCount p hs
  rw [keypadReadKeyStrokeWorker]
  dsimp only
  split
  · exact .inl ⟨_, rfl⟩
  · cases hkeys : (keypadTimerHandler p s).efiKeyQueue with
    | nil => exact .inl ⟨_, rfl⟩
    | cons keyData keys =>
      refine .inr ⟨keyData, rfl, hoff, fun hskipped => ?_⟩
      have hcount : partialCount (keypadTimerHandler p s) =
          keys.countP (fun keyData => keyData.IsPartial) + 1 := by
        rw [partialCount, hkeys]
        exact List.countP_cons_of_pos (by simpa using hskipped)
      change keys.countP (fun keyData => keyData.IsPartial) < _
      omega

theorem keypadReadKeyStroke_isSome (n : ℕ) (hs : s.isSupportPartialKey = false)
    (hn : partialCount s < n) : (keypadReadKeyStroke p n s).isSome := by
  induction n generalizing s with
  | zero => exact absurd hn (Nat.not_lt_zero _)
  | succ n ih =>
    have hread := keypadReadKeyStrokeWorker_partialCount p hs
    rw [keypadReadKeyStroke]
    generalize keypadReadKeyStrokeWorker p s = r at hread
    obtain ⟨result, s₁⟩ := r
    rcases hread with ⟨e, hresult⟩ | ⟨keyData, hresult, hoff, hcount⟩
    · obtain rfl : result = .error e := hresult
      rfl
    · obtain rfl : result = .ok keyData := hresult
      dsimp only at hoff hcount ⊢
      split
      · next hskipped =>
        have hlt := hcount hskipped
        exact ih hoff (by omega)
      · rfl

/-- As long as partial keystrokes are not exposed, `ReadKeyStroke` returns after at most 256
passes from any state a run reaches, whatever the keypad hands over. -/
theorem readKeyStroke_returns (p : KeypadPlatform δ) (device : δ) (calls : List KeypadCall)
    {s : KeypadTextIn EfiKeyQueue δ}
    (h : run p (initial device zeroKeyQueue) calls = some (replies, s))
    (hoff : s.isSupportPartialKey = false) :
    (keypadReadKeyStroke p keypadEfiKeyMaxCount s).isSome := by
  obtain ⟨keys, notify, hkeys, hnotify, -⟩ := exists_lists (initial_alike device) h
  have hcount : partialCount (s.withQueues keys notify) < keypadEfiKeyMaxCount :=
    lt_of_le_of_lt List.countP_le_length hkeys.length_lt
  have hread := keypadReadKeyStroke_alike p efiKeyQueue_refines keypadEfiKeyMaxCount
    ⟨keys, notify, hkeys, hnotify, rfl⟩
  have hsome := @keypadReadKeyStroke_isSome _ (s.withQueues keys notify) p
    keypadEfiKeyMaxCount hoff hcount
  generalize keypadReadKeyStroke p keypadEfiKeyMaxCount s = r₁ at hread
  generalize keypadReadKeyStroke p keypadEfiKeyMaxCount (s.withQueues keys notify) = r₂
    at hread hsome
  cases hread with
  | none => exact hsome
  | some => rfl

theorem readKeyStroke_returns_scanUp :
    ∃ s : KeypadTextIn EfiKeyQueue Unit,
      (keypadReadKeyStroke (constantKeypad [scanUpKey]) keypadEfiKeyMaxCount s).isSome :=
  ⟨_, readKeyStroke_returns (constantKeypad [scanUpKey]) () [.timer] rfl rfl⟩

/-- Once they are exposed, a keypad that reports one at each poll keeps it from returning. -/
theorem keypadReadKeyStroke_hangs (n : ℕ) {s : KeypadLists Unit} (hkeys : s.efiKeyQueue = [])
    (herr : s.keypadErr = false) (hon : s.isSupportPartialKey = true)
    (hlist : s.notifyList = []) :
    keypadReadKeyStroke (constantKeypad [⟨0, 0, 0, 0⟩]) n s = none := by
  induction n generalizing s with
  | zero => rfl
  | succ n ih =>
    obtain ⟨⟩ := s
    obtain rfl := hkeys
    obtain rfl := herr
    obtain rfl := hon
    obtain rfl := hlist
    exact ih rfl rfl rfl rfl

end ProjectMu.KeypadTextIn
