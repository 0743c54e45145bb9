import ProjectMu.KeypadTextIn

/-!
# What a call of the keypad driver does to its queues

Every call but a reset and a change of the notify list is a sequence of moves: a keystroke is
taken over, one leaves the queue, the handler starts or makes a pass. An invariant of the moves
is one of every call, and the reads answer with the keystrokes that leave the queue.
-/

namespace ProjectMu.KeypadTextIn

variable {Q δ : Type}

/-- The fields the queues and the handler work on. -/
structure SameWork (s s' : KeypadTextIn Q δ) : Prop where
  keys : s'.efiKeyQueue = s.efiKeyQueue
  notify : s'.efiKeyQueueForNotify = s.efiKeyQueueForNotify
  notifyList : s'.notifyList = s.notifyList
  signaled : s'.notifySignaled = s.notifySignaled
  running : s'.notifyRunning = s.notifyRunning
  accepted : s'.accepted = s.accepted
  calls : s'.calls = s.calls

theorem keypadSetState_sameWork (state : Option (BitVec 8)) (s : KeypadTextIn Q δ) :
    SameWork s (keypadSetState state s).2 := by
  cases state with
  | none => exact ⟨rfl, rfl, rfl, rfl, rfl, rfl, rfl⟩
  | some state =>
    rw [keypadSetState]
    split_ifs <;> exact ⟨rfl, rfl, rfl, rfl, rfl, rfl, rfl⟩

theorem keypadRegisterKeyNotify_eq (keyData : Option EfiKeyData) (fn : Option ℕ)
    (notifyHandle : Bool) (pool : Option ℕ) (s : KeypadTextIn Q δ) :
    ∃ notifyList, (keypadRegisterKeyNotify keyData fn notifyHandle pool s).2 =
      { s with notifyList := notifyList } := by
  unfold keypadRegisterKeyNotify
  split
  · next keyData fn =>
    cases registeredNode keyData fn s.notifyList with
    | some node => exact ⟨s.notifyList, rfl⟩
    | none =>
      cases pool with
      | none => exact ⟨s.notifyList, rfl⟩
      | some handle => exact ⟨_, rfl⟩
  · exact ⟨s.notifyList, rfl⟩

theorem keypadUnregisterKeyNotify_eq (handle : Option ℕ) (s : KeypadTextIn Q δ) :
    ∃ notifyList, (keypadUnregisterKeyNotify handle s).2 =
      { s with notifyList := notifyList } := by
  cases handle with
  | none => exact ⟨s.notifyList, rfl⟩
  | some handle =>
    rw [keypadUnregisterKeyNotify]
    split
    · exact ⟨_, rfl⟩
    · exact ⟨s.notifyList, rfl⟩

theorem eq_of_some_map {α : Type} {f : α → KeypadReply} {r : α × KeypadTextIn Q δ}
    {reply : KeypadReply} {s' : KeypadTextIn Q δ}
    (h : some (r.map f id) = some (reply, s')) : f r.1 = reply ∧ r.2 = s' :=
  Prod.mk.inj (Option.some.inj h)

variable [KeyQueue Q]

/-- One move, with the keystroke that leaves the queue. -/
inductive Move : KeypadTextIn Q δ → List EfiKeyData → KeypadTextIn Q δ → Prop
  | quiet {s s'} : SameWork s s' → Move s [] s'
  | push {s} (keyData : EfiKeyData) : ¬(keyData.IsPartial ∧ s.isSupportPartialKey = false) →
      Move s [] (keypadReturnApiPushEfikeyBufTail keyData s)
  | take {s keyData} : (KeyQueue.pop s.efiKeyQueue).1 = .ok keyData →
      Move s [keyData] { s with efiKeyQueue := (KeyQueue.pop s.efiKeyQueue).2 }
  | miss {s e} : (KeyQueue.pop s.efiKeyQueue).1 = .error e →
      Move s [] { s with efiKeyQueue := (KeyQueue.pop s.efiKeyQueue).2 }
  | dispatch {s} : Move s [] (dispatchNotify s)
  | process {s} : Move s [] (keyNotifyProcessHandler s)

inductive Path : KeypadTextIn Q δ → List EfiKeyData → KeypadTextIn Q δ → Prop
  | refl (s) : Path s [] s
  | step {s taken s' taken' s''} : Move s taken s' → Path s' taken' s'' →
      Path s (taken ++ taken') s''

variable {s s' s'' : KeypadTextIn Q δ} {taken taken' : List EfiKeyData}

theorem Move.path (h : Move s taken s') : Path s taken s' := by
  have hpath := Path.step h (.refl s')
  rwa [List.append_nil] at hpath

theorem Path.trans (h : Path s taken s') (h' : Path s' taken' s'') :
    Path s (taken ++ taken') s'' := by
  induction h with
  | refl => exact h'
  | step hmove _ ih =>
    rw [List.append_assoc]
    exact .step hmove (ih h')

def NoKey : KeypadReply → Prop
  | .inputKey (.ok _) => False
  | .keyData (.ok _) => False
  | _ => True

/-- The keystrokes behind the replies: each one is given to a caller as it is or by its input
key, or is a partial one that was skipped. -/
inductive Received : List KeypadReply → List EfiKeyData → Prop
  | nil : Received [] []
  | keyData (keyData) {replies keys} : Received replies keys →
      Received (.keyData (.ok keyData) :: replies) (keyData :: keys)
  | inputKey (keyData : EfiKeyData) {replies keys} : ¬keyData.IsPartial → Received replies keys →
      Received (.inputKey (.ok keyData.toInputKey) :: replies) (keyData :: keys)
  | skipped {keyData : EfiKeyData} {replies keys} : keyData.IsPartial → Received replies keys →
      Received replies (keyData :: keys)
  | other {reply replies keys} : NoKey reply → Received replies keys →
      Received (reply :: replies) keys

variable {p : KeypadPlatform δ} {reply : KeypadReply} {replies : List KeypadReply}

theorem Received.append {keys keys' : List EfiKeyData} {replies' : List KeypadReply}
    (h : Received replies keys) (h' : Received replies' keys') :
    Received (replies ++ replies') (keys ++ keys') := by
  induction h with
  | nil => exact h'
  | keyData keyData _ ih => exact .keyData keyData ih
  | inputKey keyData hskipped _ ih => exact .inputKey keyData hskipped ih
  | skipped hskipped _ ih => exact .skipped hskipped ih
  | other hreply _ ih => exact .other hreply ih

theorem received_noKey (h : NoKey reply) : Received [reply] [] := .other h .nil

/-- The registrations a keystroke matches. -/
def matching (keyData : EfiKeyData) (notifyList : List KeypadNotifyNode) :
    List KeypadNotifyNode :=
  notifyList.filter fun node => isKeyRegistered node.notify.keyData keyData

/-- The loop over the notify list makes one entry for every registration that matches. -/
theorem queueForNotify_eq (keyData : EfiKeyData) (notifyList : List KeypadNotifyNode)
    (s : KeypadTextIn Q δ) :
    queueForNotify keyData notifyList s =
      { s with
        efiKeyQueueForNotify := (matching keyData notifyList).foldl
          (fun queue _ => KeyQueue.push queue keyData) s.efiKeyQueueForNotify
        notifySignaled := s.notifySignaled || !(matching keyData notifyList).isEmpty } := by
  induction notifyList generalizing s with
  | nil =>
    rw [matching, List.filter_nil, List.isEmpty_nil, Bool.not_true, Bool.or_false]
    rfl
  | cons node notifyList ih =>
    rw [queueForNotify, List.foldl_cons]
    change queueForNotify keyData notifyList _ = _
    rw [ih]
    by_cases hmatch : isKeyRegistered node.notify.keyData keyData
    · have hcons : matching keyData (node :: notifyList) = node :: matching keyData notifyList :=
        List.filter_cons_of_pos hmatch
      rw [if_pos hmatch, hcons]
      simp only [List.foldl_cons, List.isEmpty_cons, Bool.true_or, Bool.not_false, Bool.or_true]
    · have hcons : matching keyData (node :: notifyList) = matching keyData notifyList :=
        List.filter_cons_of_neg hmatch
      rw [if_neg hmatch, hcons]

/-- What taking a keystroke over changes. -/
structure Pushed (keyData : EfiKeyData) (s s' : KeypadTextIn Q δ) : Prop where
  keys : s'.efiKeyQueue = KeyQueue.push s.efiKeyQueue keyData
  notify : s'.efiKeyQueueForNotify = (matching keyData s.notifyList).foldl
    (fun queue _ => KeyQueue.push queue keyData) s.efiKeyQueueForNotify
  notifyList : s'.notifyList = s.notifyList
  signaled : s'.notifySignaled = (s.notifySignaled || !(matching keyData s.notifyList).isEmpty)
  running : s'.notifyRunning = s.notifyRunning
  accepted : s'.accepted = s.accepted ++ [keyData]
  calls : s'.calls = s.calls
  partialKey : s'.isSupportPartialKey = s.isSupportPartialKey

theorem pushed {keyData : EfiKeyData} {s : KeypadTextIn Q δ}
    (h : ¬(keyData.IsPartial ∧ s.isSupportPartialKey = false)) :
    Pushed keyData s (keypadReturnApiPushEfikeyBufTail keyData s) := by
  rw [keypadReturnApiPushEfikeyBufTail, if_neg h]
  dsimp only
  rw [queueForNotify_eq]
  exact ⟨rfl, rfl, rfl, rfl, rfl, rfl, rfl, rfl⟩

theorem pushKeys_path (keys : List EfiKeyData) (s : KeypadTextIn Q δ) :
    Path s [] (pushKeys keys s) := by
  induction keys generalizing s with
  | nil => exact .refl s
  | cons keyData keys ih =>
    by_cases hdrop : keyData.IsPartial ∧ s.isSupportPartialKey = false
    · have hpush : keypadReturnApiPushEfikeyBufTail keyData s = s := if_pos hdrop
      change Path s [] (pushKeys keys (keypadReturnApiPushEfikeyBufTail keyData s))
      rw [hpush]
      exact ih s
    · exact .step (.push keyData hdrop) (ih _)

theorem keypadTimerHandler_path (p : KeypadPlatform δ) (s : KeypadTextIn Q δ) :
    Path s [] (keypadTimerHandler p s) := by
  rw [keypadTimerHandler]
  split
  · exact .refl s
  · let counter := p.getPerformanceCounter s.device
    let polled := p.getKeys (p.getTimeInNanoSecond (counter.1 - s.last)) counter.2
    have hpolled : Move s [] { s with device := polled.2, last := counter.1 } :=
      .quiet ⟨rfl, rfl, rfl, rfl, rfl, rfl, rfl⟩
    exact .step hpolled (pushKeys_path polled.1 _)

theorem keypadReadKeyStrokeWorker_path (p : KeypadPlatform δ) (s : KeypadTextIn Q δ) :
    (∃ e, (keypadReadKeyStrokeWorker p s).1 = .error e ∧
        Path s [] (keypadReadKeyStrokeWorker p s).2) ∨
      ∃ keyData, (keypadReadKeyStrokeWorker p s).1 = .ok keyData ∧
        Path s [keyData] (keypadReadKeyStrokeWorker p s).2 := by
  have hpolled := keypadTimerHandler_path p s
  rw [keypadReadKeyStrokeWorker]
  dsimp only
  split
  · exact .inl ⟨efiDeviceError, rfl, hpolled⟩
  · cases hpop : (KeyQueue.pop (keypadTimerHandler p s).efiKeyQueue).1 with
    | error e => exact .inl ⟨e, rfl, hpolled.trans (Move.miss hpop).path⟩
    | ok keyData => exact .inr ⟨keyData, rfl, hpolled.trans (Move.take hpop).path⟩

theorem keypadReadKeyStroke_path {key : Except EfiError EfiInputKey} (n : ℕ)
    (h : keypadReadKeyStroke p n s = some (key, s')) :
    ∃ taken, Path s taken s' ∧ Received [.inputKey key] taken := by
  induction n generalizing s with
  | zero => cases h
  | succ n ih =>
    have hread := keypadReadKeyStrokeWorker_path p s
    rw [keypadReadKeyStroke] at h
    generalize keypadReadKeyStrokeWorker p s = r at h hread
    obtain ⟨result, s₁⟩ := r
    rcases hread with ⟨e, hresult, hpath⟩ | ⟨keyData, hresult, hpath⟩
    · obtain rfl : result = .error e := hresult
      obtain ⟨rfl, rfl⟩ : Except.error e = key ∧ s₁ = s' := by simpa using h
      exact ⟨[], hpath, received_noKey trivial⟩
    · obtain rfl : result = .ok keyData := hresult
      dsimp only at h
      split at h
      · next hskipped =>
        obtain ⟨taken, hrest, hreceived⟩ := ih h
        exact ⟨keyData :: taken, hpath.trans hrest, .skipped hskipped hreceived⟩
      · next hskipped =>
        obtain ⟨rfl, rfl⟩ : Except.ok keyData.toInputKey = key ∧ s₁ = s' := by simpa using h
        exact ⟨[keyData], hpath, .inputKey keyData hskipped .nil⟩

theorem skipPartialKeys_path (n : ℕ) (s : KeypadTextIn Q δ) :
    ∃ taken, Path s taken { s with efiKeyQueue := (skipPartialKeys n s.efiKeyQueue).2 } ∧
      Received [] taken := by
  induction n generalizing s with
  | zero => exact ⟨[], .refl s, .nil⟩
  | succ n ih =>
    rw [skipPartialKeys]
    split
    · exact ⟨[], .refl s, .nil⟩
    · next hempty =>
      split
      · next hskipped =>
        have hmove := Move.take (KeyQueue.pop_first s.efiKeyQueue (Bool.eq_false_iff.mpr hempty))
        obtain ⟨taken, hrest, hreceived⟩ :=
          ih { s with efiKeyQueue := (KeyQueue.pop s.efiKeyQueue).2 }
        exact ⟨_ :: taken, hmove.path.trans hrest, .skipped hskipped hreceived⟩
      · exact ⟨[], .refl s, .nil⟩

theorem keypadWaitForKey_path (p : KeypadPlatform δ) (s : KeypadTextIn Q δ) :
    ∃ taken, Path s taken (keypadWaitForKey p s).2 ∧ Received [] taken := by
  have hpolled := keypadTimerHandler_path p s
  rw [keypadWaitForKey]
  dsimp only
  split
  · exact ⟨[], hpolled, .nil⟩
  · obtain ⟨taken, hpath, hreceived⟩ :=
      skipPartialKeys_path keypadEfiKeyMaxCount (keypadTimerHandler p s)
    exact ⟨taken, hpolled.trans hpath, hreceived⟩

/-- A reset that is not refused: the same but for the queues, which are cleared. -/
structure Cleared (s s' : KeypadTextIn Q δ) : Prop where
  keys : s'.efiKeyQueue = KeyQueue.clear s.efiKeyQueue
  notify : s'.efiKeyQueueForNotify = KeyQueue.clear s.efiKeyQueueForNotify
  notifyList : s'.notifyList = s.notifyList
  signaled : s'.notifySignaled = s.notifySignaled
  running : s'.notifyRunning = s.notifyRunning
  accepted : s'.accepted = s.accepted
  calls : s'.calls = s.calls

def IsRegistration : KeypadCall → Prop
  | .registerKeyNotify _ _ _ _ => True
  | .unregisterKeyNotify _ => True
  | _ => False

theorem step_spec {call : KeypadCall} (h : step p s call = some (reply, s')) :
    (¬IsRegistration call ∧ ∃ taken, Path s taken s' ∧ Received [reply] taken) ∨
      (call = .reset ∧ NoKey reply ∧ Cleared s s') ∨
      (IsRegistration call ∧ NoKey reply ∧
        ∃ notifyList, s' = { s with notifyList := notifyList }) := by
  cases call with
  | error =>
    obtain ⟨rfl, rfl⟩ : KeypadReply.done = reply ∧ keypadError s = s' :=
      Prod.mk.inj (Option.some.inj h)
    have hmove : Move s [] (keypadError s) := .quiet ⟨rfl, rfl, rfl, rfl, rfl, rfl, rfl⟩
    exact .inl ⟨id, [], hmove.path, received_noKey trivial⟩
  | timer =>
    obtain ⟨rfl, rfl⟩ : KeypadReply.done = reply ∧ keypadTimerHandler p s = s' :=
      Prod.mk.inj (Option.some.inj h)
    exact .inl ⟨id, [], keypadTimerHandler_path p s, received_noKey trivial⟩
  | readKeyStroke passes =>
    rw [step, Option.map_eq_some_iff] at h
    obtain ⟨⟨key, s₁⟩, hread, hresult⟩ := h
    obtain ⟨rfl, rfl⟩ : KeypadReply.inputKey key = reply ∧ s₁ = s' := by simpa using hresult
    exact .inl ⟨id, keypadReadKeyStroke_path passes hread⟩
  | readKeyStrokeEx keyData =>
    obtain ⟨rfl, rfl⟩ : KeypadReply.keyData (keypadReadKeyStrokeEx p keyData s).1 = reply ∧
        (keypadReadKeyStrokeEx p keyData s).2 = s' := eq_of_some_map h
    rw [keypadReadKeyStrokeEx]
    split
    · exact .inl ⟨id, [], .refl s, received_noKey trivial⟩
    · rcases keypadReadKeyStrokeWorker_path p s with ⟨e, hresult, hpath⟩ | ⟨key, hresult, hpath⟩
      · rw [hresult]
        exact .inl ⟨id, [], hpath, received_noKey trivial⟩
      · rw [hresult]
        exact .inl ⟨id, [key], hpath, .keyData key .nil⟩
  | waitForKey =>
    obtain ⟨rfl, rfl⟩ : KeypadReply.signaled (keypadWaitForKey p s).1 = reply ∧
        (keypadWaitForKey p s).2 = s' := eq_of_some_map h
    obtain ⟨taken, hpath, hreceived⟩ := keypadWaitForKey_path p s
    exact .inl ⟨id, taken, hpath, .other trivial hreceived⟩
  | reset =>
    obtain ⟨rfl, rfl⟩ : KeypadReply.status (keypadEfiReset p s).1 = reply ∧
        (keypadEfiReset p s).2 = s' := eq_of_some_map h
    rw [keypadEfiReset]
    split
    · exact .inl ⟨id, [], .refl s, received_noKey trivial⟩
    · exact .inr (.inl ⟨rfl, trivial, rfl, rfl, rfl, rfl, rfl, rfl, rfl⟩)
  | setState state =>
    obtain ⟨rfl, rfl⟩ : KeypadReply.status (keypadSetState state s).1 = reply ∧
        (keypadSetState state s).2 = s' := eq_of_some_map h
    exact .inl ⟨id, [], (Move.quiet (keypadSetState_sameWork state s)).path, received_noKey trivial⟩
  | registerKeyNotify keyData fn notifyHandle pool =>
    obtain ⟨rfl, rfl⟩ : KeypadReply.notifyHandle
          (keypadRegisterKeyNotify keyData fn notifyHandle pool s).1 = reply ∧
        (keypadRegisterKeyNotify keyData fn notifyHandle pool s).2 = s' := eq_of_some_map h
    obtain ⟨notifyList, heq⟩ := keypadRegisterKeyNotify_eq keyData fn notifyHandle pool s
    exact .inr (.inr ⟨trivial, trivial, notifyList, heq⟩)
  | unregisterKeyNotify handle =>
    obtain ⟨rfl, rfl⟩ : KeypadReply.status (keypadUnregisterKeyNotify handle s).1 = reply ∧
        (keypadUnregisterKeyNotify handle s).2 = s' := eq_of_some_map h
    obtain ⟨notifyList, heq⟩ := keypadUnregisterKeyNotify_eq handle s
    exact .inr (.inr ⟨trivial, trivial, notifyList, heq⟩)
  | dispatch =>
    obtain ⟨rfl, rfl⟩ : KeypadReply.done = reply ∧ dispatchNotify s = s' :=
      Prod.mk.inj (Option.some.inj h)
    exact .inl ⟨id, [], Move.dispatch.path, received_noKey trivial⟩
  | process =>
    obtain ⟨rfl, rfl⟩ : KeypadReply.done = reply ∧ keyNotifyProcessHandler s = s' :=
      Prod.mk.inj (Option.some.inj h)
    exact .inl ⟨id, [], Move.process.path, received_noKey trivial⟩

theorem run_cons {call : KeypadCall}
    {calls : List KeypadCall} (h : run p s (call :: calls) = some (replies, s')) :
    ∃ reply s₁ rest, step p s call = some (reply, s₁) ∧ run p s₁ calls = some (rest, s') ∧
      replies = reply :: rest := by
  rw [run] at h
  cases hstep : step p s call with
  | none =>
    rw [hstep] at h
    cases h
  | some result =>
    obtain ⟨reply, s₁⟩ := result
    rw [hstep] at h
    obtain ⟨⟨rest, s₂⟩, hrun, hresult⟩ := Option.map_eq_some_iff.mp h
    obtain ⟨rfl, rfl⟩ : reply :: rest = replies ∧ s₂ = s' := by simpa using hresult
    exact ⟨reply, s₁, rest, rfl, hrun, rfl⟩

end ProjectMu.KeypadTextIn
