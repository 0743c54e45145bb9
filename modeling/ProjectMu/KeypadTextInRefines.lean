import ProjectMu.KeypadTextIn

/-!
# The rings of the keypad driver against lists

If two kinds of queues answer alike, so do the devices that use them, over any sequence of
calls. The ring of 256 cells and the list of at most 255 keystrokes are two such kinds, so every
fact about the device with lists is one about the driver.
-/

namespace ProjectMu

open RingQueue

/-- Queues related by `R` answer alike and stay related. -/
structure QueueRefines {Q Q' : Type} [KeyQueue Q] [KeyQueue Q'] (R : Q → Q' → Prop) : Prop where
  clear : ∀ {q q'}, R q q' → R (KeyQueue.clear q) (KeyQueue.clear q')
  isEmpty : ∀ {q q'}, R q q' → KeyQueue.isEmpty q = KeyQueue.isEmpty q'
  first : ∀ {q q'}, R q q' → KeyQueue.isEmpty q' = false → KeyQueue.first q = KeyQueue.first q'
  pop : ∀ {q q'}, R q q' → (KeyQueue.pop q).1 = (KeyQueue.pop q').1 ∧
    R (KeyQueue.pop q).2 (KeyQueue.pop q').2
  push : ∀ {q q'} keyData, R q q' → R (KeyQueue.push q keyData) (KeyQueue.push q' keyData)

theorem efiKeyQueue_refines :
    QueueRefines (Represents : EfiKeyQueue → List EfiKeyData → Prop) where
  clear _ := Represents.nil_of_eq (Nat.zero_lt_succ _) rfl
  isEmpty := by
    intro q l h
    have hring : isEfikeyBufEmpty q = true ↔ l = [] :=
      isEfikeyBufEmpty_iff.trans h.isEmpty_iff
    exact Bool.eq_iff_iff.mpr (hring.trans List.isEmpty_iff.symm)
  first := by
    intro q l h hne
    cases l with
    | nil => exact absurd hne (by decide)
    | cons keyData keys =>
      have hcell := h.cells 0 (Nat.succ_pos _)
      rw [Nat.add_zero, Nat.mod_eq_of_lt h.head_lt] at hcell
      exact hcell
  pop h := popEfikeyBufHead_represents h
  push := by
    intro q l keyData h
    change Represents (pushEfikeyBufTail q keyData)
      (pushBounded (keypadEfiKeyMaxCount - 1) l keyData)
    rw [pushEfikeyBufTail_eq]
    exact h.push_bounded (by decide) keyData

namespace KeypadTextIn

variable {Q Q' δ : Type}

/-- The same device with other queues. -/
def withQueues (s : KeypadTextIn Q δ) (keys notify : Q') : KeypadTextIn Q' δ :=
  { s with efiKeyQueue := keys, efiKeyQueueForNotify := notify }

theorem withQueues_notifyList (s : KeypadTextIn Q δ) (keys notify : Q') :
    (s.withQueues keys notify).notifyList = s.notifyList := rfl

theorem withQueues_efiKeyQueueForNotify (s : KeypadTextIn Q δ) (keys notify : Q') :
    (s.withQueues keys notify).efiKeyQueueForNotify = notify := rfl

/-- Devices that differ in their queues only, and these are related. -/
def Alike (R : Q → Q' → Prop) (s : KeypadTextIn Q δ) (s' : KeypadTextIn Q' δ) : Prop :=
  ∃ keys notify, R s.efiKeyQueue keys ∧ R s.efiKeyQueueForNotify notify ∧
    s' = s.withQueues keys notify

variable {R : Q → Q' → Prop} {s : KeypadTextIn Q δ} {s' : KeypadTextIn Q' δ}

/-- Two results of a call: the same reply, from devices that are alike. -/
def SameReply {α : Type} (R : Q → Q' → Prop) (r : α × KeypadTextIn Q δ)
    (r' : α × KeypadTextIn Q' δ) : Prop :=
  r.1 = r'.1 ∧ Alike R r.2 r'.2

theorem keypadSetState_alike (keyToggleState : Option (BitVec 8)) (h : Alike R s s') :
    SameReply R (keypadSetState keyToggleState s) (keypadSetState keyToggleState s') := by
  obtain ⟨keys, notify, hkeys, hnotify, rfl⟩ := h
  unfold keypadSetState
  cases keyToggleState with
  | none => exact ⟨rfl, keys, notify, hkeys, hnotify, rfl⟩
  | some state =>
    change SameReply R (if s.keypadErr = true then _ else _)
      (if s.keypadErr = true then _ else _)
    split_ifs <;> exact ⟨rfl, keys, notify, hkeys, hnotify, rfl⟩

theorem keypadRegisterKeyNotify_alike (keyData : Option EfiKeyData) (fn : Option ℕ)
    (notifyHandle : Bool) (pool : Option ℕ) (h : Alike R s s') :
    SameReply R (keypadRegisterKeyNotify keyData fn notifyHandle pool s)
      (keypadRegisterKeyNotify keyData fn notifyHandle pool s') := by
  obtain ⟨keys, notify, hkeys, hnotify, rfl⟩ := h
  unfold keypadRegisterKeyNotify
  split
  · next keyData fn =>
    rw [withQueues_notifyList]
    cases registeredNode keyData fn s.notifyList with
    | some node => exact ⟨rfl, keys, notify, hkeys, hnotify, rfl⟩
    | none => cases pool <;> exact ⟨rfl, keys, notify, hkeys, hnotify, rfl⟩
  · exact ⟨rfl, keys, notify, hkeys, hnotify, rfl⟩

theorem keypadUnregisterKeyNotify_alike (handle : Option ℕ) (h : Alike R s s') :
    SameReply R (keypadUnregisterKeyNotify handle s) (keypadUnregisterKeyNotify handle s') := by
  obtain ⟨keys, notify, hkeys, hnotify, rfl⟩ := h
  unfold keypadUnregisterKeyNotify
  cases handle with
  | none => exact ⟨rfl, keys, notify, hkeys, hnotify, rfl⟩
  | some handle =>
    dsimp only
    rw [withQueues_notifyList]
    cases s.notifyList.any (fun node => node.handle == handle) <;>
      exact ⟨rfl, keys, notify, hkeys, hnotify, rfl⟩

theorem dispatchNotify_alike (h : Alike R s s') :
    Alike R (dispatchNotify s) (dispatchNotify s') := by
  obtain ⟨keys, notify, hkeys, hnotify, rfl⟩ := h
  unfold dispatchNotify
  change Alike R (if s.notifySignaled ∧ s.notifyRunning = false then _ else _)
    (if s.notifySignaled ∧ s.notifyRunning = false then _ else _)
  split <;> exact ⟨keys, notify, hkeys, hnotify, rfl⟩

theorem SameReply.map {α β : Type} {r : α × KeypadTextIn Q δ} {r' : α × KeypadTextIn Q' δ}
    (f : α → β) (h : SameReply R r r') : SameReply R (r.map f id) (r'.map f id) :=
  ⟨congrArg f h.1, h.2⟩

variable [KeyQueue Q] [KeyQueue Q']

theorem queueForNotify_alike (hR : QueueRefines R) (keyData : EfiKeyData)
    (notifyList : List KeypadNotifyNode) (h : Alike R s s') :
    Alike R (queueForNotify keyData notifyList s) (queueForNotify keyData notifyList s') := by
  induction notifyList generalizing s s' with
  | nil => exact h
  | cons node notifyList ih =>
    simp only [queueForNotify, List.foldl_cons]
    apply ih
    obtain ⟨keys, notify, hkeys, hnotify, rfl⟩ := h
    split
    · exact ⟨keys, _, hkeys, hR.push keyData hnotify, rfl⟩
    · exact ⟨keys, notify, hkeys, hnotify, rfl⟩

theorem keypadReturnApiPushEfikeyBufTail_alike (hR : QueueRefines R) (keyData : EfiKeyData)
    (h : Alike R s s') :
    Alike R (keypadReturnApiPushEfikeyBufTail keyData s)
      (keypadReturnApiPushEfikeyBufTail keyData s') := by
  have hqueued := queueForNotify_alike hR keyData s.notifyList h
  have hlist : s'.notifyList = s.notifyList ∧ s'.isSupportPartialKey = s.isSupportPartialKey := by
    obtain ⟨_, _, _, _, rfl⟩ := h
    exact ⟨rfl, rfl⟩
  rw [keypadReturnApiPushEfikeyBufTail, keypadReturnApiPushEfikeyBufTail, hlist.1, hlist.2]
  split
  · exact h
  · obtain ⟨keys, notify, hkeys, hnotify, heq⟩ := hqueued
    dsimp only
    rw [heq]
    exact ⟨_, notify, hR.push keyData hkeys, hnotify, rfl⟩

theorem pushKeys_alike (hR : QueueRefines R) (keys : List EfiKeyData) (h : Alike R s s') :
    Alike R (pushKeys keys s) (pushKeys keys s') := by
  induction keys generalizing s s' with
  | nil => exact h
  | cons keyData keys ih => exact ih (keypadReturnApiPushEfikeyBufTail_alike hR keyData h)

theorem keypadTimerHandler_alike (p : KeypadPlatform δ) (hR : QueueRefines R) (h : Alike R s s') :
    Alike R (keypadTimerHandler p s) (keypadTimerHandler p s') := by
  obtain ⟨keys, notify, hkeys, hnotify, rfl⟩ := h
  unfold keypadTimerHandler
  change Alike R (if s.keypadErr = true then s else _) (if s.keypadErr = true then _ else _)
  split
  · exact ⟨keys, notify, hkeys, hnotify, rfl⟩
  · exact pushKeys_alike hR _ ⟨keys, notify, hkeys, hnotify, rfl⟩

theorem keypadReadKeyStrokeWorker_alike (p : KeypadPlatform δ) (hR : QueueRefines R)
    (h : Alike R s s') :
    SameReply R (keypadReadKeyStrokeWorker p s) (keypadReadKeyStrokeWorker p s') := by
  have hpolled := keypadTimerHandler_alike p hR h
  unfold keypadReadKeyStrokeWorker
  obtain ⟨keys, notify, hkeys, hnotify, heq⟩ := hpolled
  rw [heq]
  dsimp only
  change SameReply R (if (keypadTimerHandler p s).keypadErr = true then _ else _)
    (if (keypadTimerHandler p s).keypadErr = true then _ else _)
  split
  · exact ⟨rfl, keys, notify, hkeys, hnotify, rfl⟩
  · obtain ⟨hreply, hrest⟩ := hR.pop hkeys
    exact ⟨hreply, _, notify, hrest, hnotify, rfl⟩

theorem keypadReadKeyStroke_alike (p : KeypadPlatform δ) (hR : QueueRefines R) (n : ℕ)
    (h : Alike R s s') :
    Option.Rel (SameReply R) (keypadReadKeyStroke p n s) (keypadReadKeyStroke p n s') := by
  induction n generalizing s s' with
  | zero => exact .none
  | succ n ih =>
    obtain ⟨hreply, hrest⟩ := keypadReadKeyStrokeWorker_alike p hR h
    rw [keypadReadKeyStroke, keypadReadKeyStroke]
    generalize keypadReadKeyStrokeWorker p s = r at hreply hrest
    generalize keypadReadKeyStrokeWorker p s' = r' at hreply hrest
    obtain ⟨reply, s⟩ := r
    obtain ⟨reply', s'⟩ := r'
    obtain rfl : reply = reply' := hreply
    cases reply with
    | error e => exact .some ⟨rfl, hrest⟩
    | ok keyData =>
      dsimp only
      split
      · exact ih hrest
      · exact .some ⟨rfl, hrest⟩

theorem skipPartialKeys_alike (hR : QueueRefines R) (n : ℕ) {q : Q} {q' : Q'} (h : R q q') :
    (skipPartialKeys n q).1 = (skipPartialKeys n q').1 ∧
      R (skipPartialKeys n q).2 (skipPartialKeys n q').2 := by
  induction n generalizing q q' with
  | zero => exact ⟨rfl, h⟩
  | succ n ih =>
    rw [skipPartialKeys, skipPartialKeys, hR.isEmpty h]
    cases hempty : KeyQueue.isEmpty q' with
    | true => exact ⟨rfl, h⟩
    | false =>
      rw [hR.first h hempty]
      simp only [Bool.false_eq_true, if_false]
      split
      · exact ih (hR.pop h).2
      · exact ⟨rfl, h⟩

theorem keypadWaitForKey_alike (p : KeypadPlatform δ) (hR : QueueRefines R) (h : Alike R s s') :
    SameReply R (keypadWaitForKey p s) (keypadWaitForKey p s') := by
  have hpolled := keypadTimerHandler_alike p hR h
  unfold keypadWaitForKey
  obtain ⟨keys, notify, hkeys, hnotify, heq⟩ := hpolled
  rw [heq]
  dsimp only
  change SameReply R (if (keypadTimerHandler p s).keypadErr = true then _ else _)
    (if (keypadTimerHandler p s).keypadErr = true then _ else _)
  split
  · exact ⟨rfl, keys, notify, hkeys, hnotify, rfl⟩
  · obtain ⟨hreply, hrest⟩ := skipPartialKeys_alike hR keypadEfiKeyMaxCount hkeys
    exact ⟨hreply, _, notify, hrest, hnotify, rfl⟩

theorem keypadEfiReset_alike (p : KeypadPlatform δ) (hR : QueueRefines R) (h : Alike R s s') :
    SameReply R (keypadEfiReset p s) (keypadEfiReset p s') := by
  obtain ⟨keys, notify, hkeys, hnotify, rfl⟩ := h
  unfold keypadEfiReset
  change SameReply R (if s.keypadErr = true then _ else _) (if s.keypadErr = true then _ else _)
  split
  · exact ⟨rfl, keys, notify, hkeys, hnotify, rfl⟩
  · exact ⟨rfl, _, _, hR.clear hkeys, hR.clear hnotify, rfl⟩

theorem keyNotifyProcessHandler_alike (hR : QueueRefines R) (h : Alike R s s') :
    Alike R (keyNotifyProcessHandler s) (keyNotifyProcessHandler s') := by
  obtain ⟨keys, notify, hkeys, hnotify, rfl⟩ := h
  unfold keyNotifyProcessHandler
  change Alike R (if s.notifyRunning = false then _ else _)
    (if s.notifyRunning = false then _ else _)
  split
  · exact ⟨keys, notify, hkeys, hnotify, rfl⟩
  · obtain ⟨hreply, hrest⟩ := hR.pop hnotify
    rw [withQueues_efiKeyQueueForNotify]
    generalize KeyQueue.pop s.efiKeyQueueForNotify = r at hreply hrest
    generalize KeyQueue.pop notify = r' at hreply hrest
    obtain ⟨reply, queue⟩ := r
    obtain ⟨reply', queue'⟩ := r'
    obtain rfl : reply = reply' := hreply
    cases reply <;> exact ⟨keys, queue', hkeys, hrest, rfl⟩

theorem step_alike (p : KeypadPlatform δ) (hR : QueueRefines R) (call : KeypadCall)
    (h : Alike R s s') :
    Option.Rel (SameReply R) (step p s call) (step p s' call) := by
  cases call with
  | error =>
    obtain ⟨keys, notify, hkeys, hnotify, rfl⟩ := h
    exact .some ⟨rfl, keys, notify, hkeys, hnotify, rfl⟩
  | timer => exact .some ⟨rfl, keypadTimerHandler_alike p hR h⟩
  | readKeyStroke passes =>
    have hread := keypadReadKeyStroke_alike p hR passes h
    rw [step, step]
    generalize keypadReadKeyStroke p passes s = r at hread
    generalize keypadReadKeyStroke p passes s' = r' at hread
    cases hread with
    | none => exact .none
    | some hreply => exact .some (hreply.map _)
  | readKeyStrokeEx keyData =>
    refine .some (SameReply.map _ ?_)
    unfold keypadReadKeyStrokeEx
    split
    · exact ⟨rfl, h⟩
    · exact keypadReadKeyStrokeWorker_alike p hR h
  | waitForKey => exact .some ((keypadWaitForKey_alike p hR h).map _)
  | reset => exact .some ((keypadEfiReset_alike p hR h).map _)
  | setState state => exact .some ((keypadSetState_alike state h).map _)
  | registerKeyNotify keyData fn notifyHandle pool =>
    exact .some ((keypadRegisterKeyNotify_alike keyData fn notifyHandle pool h).map _)
  | unregisterKeyNotify handle => exact .some ((keypadUnregisterKeyNotify_alike handle h).map _)
  | dispatch => exact .some ⟨rfl, dispatchNotify_alike h⟩
  | process => exact .some ⟨rfl, keyNotifyProcessHandler_alike hR h⟩

theorem run_alike (p : KeypadPlatform δ) (hR : QueueRefines R) (calls : List KeypadCall)
    (h : Alike R s s') :
    Option.Rel (SameReply R) (run p s calls) (run p s' calls) := by
  induction calls generalizing s s' with
  | nil => exact .some ⟨rfl, h⟩
  | cons call calls ih =>
    have hstep := step_alike p hR call h
    rw [run, run]
    generalize step p s call = r at hstep
    generalize step p s' call = r' at hstep
    cases hstep with
    | none => exact .none
    | @some r r' hreply =>
      obtain ⟨reply, s⟩ := r
      obtain ⟨reply', s'⟩ := r'
      obtain ⟨hsame, halike⟩ := hreply
      obtain rfl : reply = reply' := hsame
      dsimp only at halike ⊢
      have hrun := ih halike
      generalize run p s calls = r at hrun
      generalize run p s' calls = r' at hrun
      cases hrun with
      | none => exact .none
      | some hrest => exact .some (hrest.map _)

/-- A condition on every call of a run that returns, with the state before and after it. -/
def EveryCall (P : KeypadTextIn Q δ → KeypadCall → KeypadTextIn Q δ → Prop)
    (p : KeypadPlatform δ) : KeypadTextIn Q δ → List KeypadCall → Prop
  | _, [] => True
  | s, call :: calls =>
    match step p s call with
    | none => True
    | some (_, s') => P s call s' ∧ EveryCall P p s' calls

theorem EveryCall.alike {P : KeypadTextIn Q δ → KeypadCall → KeypadTextIn Q δ → Prop}
    {P' : KeypadTextIn Q' δ → KeypadCall → KeypadTextIn Q' δ → Prop} (p : KeypadPlatform δ)
    (hR : QueueRefines R) (calls : List KeypadCall)
    (hP : ∀ {s s₁ s' s₁'} call, Alike R s s' → Alike R s₁ s₁' → P s call s₁ → P' s' call s₁')
    (h : Alike R s s') (hevery : EveryCall P p s calls) : EveryCall P' p s' calls := by
  induction calls generalizing s s' with
  | nil => trivial
  | cons call calls ih =>
    have hstep := step_alike p hR call h
    rw [EveryCall] at hevery ⊢
    generalize step p s call = r at hstep hevery
    generalize step p s' call = r' at hstep
    cases hstep with
    | none => trivial
    | some hreply => exact ⟨hP call h hreply.2 hevery.1, ih hreply.2 hevery.2⟩

/-- The device whose queues are lists. -/
abbrev KeypadLists (δ : Type) := KeypadTextIn (List EfiKeyData) δ

theorem initial_alike (device : δ) :
    Alike (Represents : EfiKeyQueue → List EfiKeyData → Prop) (initial device zeroKeyQueue)
      (initial device []) :=
  ⟨[], [], zeroKeyQueue_represents, zeroKeyQueue_represents, rfl⟩

/-- A run of the driver is one of the device with lists. -/
theorem exists_lists {p : KeypadPlatform δ} {calls : List KeypadCall}
    {replies : List KeypadReply} {s s' : KeypadTextIn EfiKeyQueue δ} {l : KeypadLists δ}
    (halike : Alike (Represents : EfiKeyQueue → List EfiKeyData → Prop) s l)
    (h : run p s calls = some (replies, s')) :
    ∃ keys notify, Represents s'.efiKeyQueue keys ∧ Represents s'.efiKeyQueueForNotify notify ∧
      run p l calls = some (replies, s'.withQueues keys notify) := by
  have hrun := run_alike p efiKeyQueue_refines calls halike
  rw [h] at hrun
  generalize run p l calls = r at hrun
  cases hrun with
  | @some _ r hsame =>
    obtain ⟨replies', l'⟩ := r
    obtain ⟨hreplies, keys, notify, hkeys, hnotify, heq⟩ := hsame
    obtain rfl : replies = replies' := hreplies
    obtain rfl : l' = s'.withQueues keys notify := heq
    exact ⟨keys, notify, hkeys, hnotify, rfl⟩

/-- From a zeroed device on, any sequence of calls is answered as by the device whose queues
are lists of at most 255 keystrokes; the two hold the same keystrokes at the end. -/
theorem run_lists (p : KeypadPlatform δ) (device : δ) (calls : List KeypadCall) :
    Option.Rel (SameReply (Represents : EfiKeyQueue → List EfiKeyData → Prop))
      (run p (initial device zeroKeyQueue) calls)
      (run p (initial device ([] : List EfiKeyData)) calls) :=
  run_alike p efiKeyQueue_refines calls (initial_alike device)

end KeypadTextIn

end ProjectMu
