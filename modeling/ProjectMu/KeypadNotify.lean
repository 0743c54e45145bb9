import ProjectMu.KeypadTextInRefines
import ProjectMu.KeypadTextInSteps

/-!
# Key notifications of the keypad driver

A keystroke is queued for notification once for every registration it matches, and the
handler calls every matching registration for every queued keystroke. So a keystroke that
matches `n` registrations makes `n * n` calls, and each registration is called once exactly
when no keystroke matches two of them.
-/

namespace ProjectMu

open RingQueue KeypadTextIn

/-- What can happen in any order: a keystroke, or a pass of the handler, which keystrokes can
interrupt. -/
inductive KeypadAction
  | push (keyData : EfiKeyData)
  | process

def pushedKeys : List KeypadAction → List EfiKeyData
  | [] => []
  | .push keyData :: actions => keyData :: pushedKeys actions
  | .process :: actions => pushedKeys actions

/-- The calls that notify every matching registration once for one keystroke. -/
def notificationsFor (notifyList : List KeypadNotifyNode) (keyData : EfiKeyData) :
    List (KeypadNotifyNode × EfiKeyData) :=
  (matching keyData notifyList).map (·, keyData)

/-- What the notifications are for: every matching registration once, in push order. -/
def dueNotifications (notifyList : List KeypadNotifyNode) (keys : List EfiKeyData) :
    List (KeypadNotifyNode × EfiKeyData) :=
  keys.flatMap (notificationsFor notifyList)

/-- The number of registrations a keystroke matches. -/
def matchCount (notifyList : List KeypadNotifyNode) (keyData : EfiKeyData) : ℕ :=
  (matching keyData notifyList).length

namespace KeypadTextIn

variable {δ : Type} {s s' : KeypadTextIn EfiKeyQueue δ} {keyData : EfiKeyData}
  {queued : List EfiKeyData}

/-- A keystroke without code and character, which the driver does not take. -/
def Drops (s : KeypadTextIn EfiKeyQueue δ) (keyData : EfiKeyData) : Prop :=
  keyData.IsPartial ∧ s.isSupportPartialKey = false

instance (s : KeypadTextIn EfiKeyQueue δ) (keyData : EfiKeyData) : Decidable (s.Drops keyData) :=
  inferInstanceAs (Decidable (_ ∧ _))

/-- The handler is started where its event was signaled, and makes one pass. -/
def act (s : KeypadTextIn EfiKeyQueue δ) : KeypadAction → KeypadTextIn EfiKeyQueue δ
  | .push keyData => keypadReturnApiPushEfikeyBufTail keyData s
  | .process => keyNotifyProcessHandler (dispatchNotify s)

def actAll (s : KeypadTextIn EfiKeyQueue δ) (actions : List KeypadAction) :
    KeypadTextIn EfiKeyQueue δ :=
  actions.foldl act s

/-- The handler runs until it finds the queue empty, at most `n` passes. -/
def keyNotifyProcess : ℕ → KeypadTextIn EfiKeyQueue δ → KeypadTextIn EfiKeyQueue δ
  | 0, s => s
  | n + 1, s =>
    if s.notifyRunning = false then s else keyNotifyProcess n (keyNotifyProcessHandler s)

/-- The queue never holds as many keystrokes as it has cells. -/
def notifyAll (s : KeypadTextIn EfiKeyQueue δ) : KeypadTextIn EfiKeyQueue δ :=
  keyNotifyProcess keypadEfiKeyMaxCount (dispatchNotify s)

/-- No entry of the loop over the notify list meets a full queue. -/
def QueueFits (keyData : EfiKeyData) :
    List KeypadNotifyNode → KeypadTextIn EfiKeyQueue δ → Prop
  | [], _ => True
  | node :: notifyList, s =>
    (isKeyRegistered node.notify.keyData keyData → ¬s.efiKeyQueueForNotify.IsFull) ∧
      QueueFits keyData notifyList (queueForNotify keyData [node] s)

instance decidableQueueFits (keyData : EfiKeyData) :
    ∀ notifyList (s : KeypadTextIn EfiKeyQueue δ), Decidable (QueueFits keyData notifyList s)
  | [], _ => .isTrue trivial
  | node :: notifyList, s =>
    have := decidableQueueFits keyData notifyList (queueForNotify keyData [node] s)
    inferInstanceAs (Decidable (_ ∧ _))

def NeverOverflows : KeypadTextIn EfiKeyQueue δ → List KeypadAction → Prop
  | _, [] => True
  | s, .process :: actions => NeverOverflows (s.act .process) actions
  | s, .push keyData :: actions =>
    (¬s.Drops keyData → QueueFits keyData s.notifyList s) ∧
      NeverOverflows (s.act (.push keyData)) actions

instance decidableNeverOverflows :
    ∀ (s : KeypadTextIn EfiKeyQueue δ) actions, Decidable (NeverOverflows s actions)
  | _, [] => .isTrue trivial
  | s, .process :: actions => decidableNeverOverflows (s.act .process) actions
  | s, .push keyData :: actions =>
    have := decidableNeverOverflows (s.act (.push keyData)) actions
    inferInstanceAs (Decidable (_ ∧ _))

/-- The queue entries one keystroke makes. -/
def entriesFor (s : KeypadTextIn EfiKeyQueue δ) (keyData : EfiKeyData) : List EfiKeyData :=
  if s.Drops keyData then [] else List.replicate (matchCount s.notifyList keyData) keyData

/-- The fields that no step changes. -/
structure SameRegistrations (s s' : KeypadTextIn EfiKeyQueue δ) : Prop where
  notifyList : s'.notifyList = s.notifyList
  isSupportPartialKey : s'.isSupportPartialKey = s.isSupportPartialKey

theorem SameRegistrations.trans {s'' : KeypadTextIn EfiKeyQueue δ}
    (h : SameRegistrations s s') (h' : SameRegistrations s' s'') : SameRegistrations s s'' :=
  ⟨h'.notifyList.trans h.notifyList, h'.isSupportPartialKey.trans h.isSupportPartialKey⟩

/-- The loop over the notify list, with room for what it adds: one more entry for every
registration that matches. -/
theorem queueForNotify_represents (notifyList : List KeypadNotifyNode)
    (h : Represents s.efiKeyQueueForNotify queued) (hfit : QueueFits keyData notifyList s) :
    Represents (queueForNotify keyData notifyList s).efiKeyQueueForNotify
      (queued ++ List.replicate (matchCount notifyList keyData) keyData) := by
  induction notifyList generalizing s queued with
  | nil =>
    rw [matchCount, matching, List.filter_nil, List.length_nil, List.replicate_zero,
      List.append_nil]
    exact h
  | cons node notifyList ih =>
    obtain ⟨hone, hrest⟩ := hfit
    have hall : queueForNotify keyData (node :: notifyList) s =
        queueForNotify keyData notifyList (queueForNotify keyData [node] s) := rfl
    rw [hall]
    by_cases hmatch : isKeyRegistered node.notify.keyData keyData
    · have hstep : (queueForNotify keyData [node] s).efiKeyQueueForNotify =
          s.efiKeyQueueForNotify.push keyData := by
        rw [queueForNotify, List.foldl_cons, if_pos hmatch]
        exact pushEfikeyBufTail_eq s.efiKeyQueueForNotify keyData
      have hcount : matchCount (node :: notifyList) keyData =
          matchCount notifyList keyData + 1 := by
        have hcons : matching keyData (node :: notifyList) =
            node :: matching keyData notifyList := List.filter_cons_of_pos hmatch
        rw [matchCount, hcons, List.length_cons, matchCount]
      rw [hcount, List.replicate_succ, List.append_cons]
      refine ih ?_ hrest
      rw [hstep]
      exact h.push (hone hmatch) keyData
    · have hstep : queueForNotify keyData [node] s = s := if_neg hmatch
      have hcount : matchCount (node :: notifyList) keyData = matchCount notifyList keyData := by
        have hcons : matching keyData (node :: notifyList) = matching keyData notifyList :=
          List.filter_cons_of_neg hmatch
        rw [matchCount, hcons, matchCount]
      rw [hcount]
      rw [hstep] at hrest ⊢
      exact ih h hrest

/-- The handler runs or is about to, as long as something is queued. -/
def Woken (s : KeypadTextIn EfiKeyQueue δ) : Prop :=
  s.notifySignaled = true ∨ s.notifyRunning = true

theorem dispatchNotify_running (h : s.Woken) : (dispatchNotify s).notifyRunning = true := by
  rw [dispatchNotify]
  split
  · rfl
  · next hnot =>
    refine h.elim (fun hsignaled => ?_) id
    rw [not_and, Bool.not_eq_false] at hnot
    exact hnot hsignaled

theorem dispatchNotify_same (s : KeypadTextIn EfiKeyQueue δ) :
    SameRegistrations s (dispatchNotify s) ∧
      (dispatchNotify s).efiKeyQueueForNotify = s.efiKeyQueueForNotify ∧
      (dispatchNotify s).calls = s.calls := by
  rw [dispatchNotify]
  split <;> exact ⟨⟨rfl, rfl⟩, rfl, rfl⟩

/-- A pass with a keystroke in the queue makes the calls for it. -/
theorem keyNotifyProcessHandler_cons (hrunning : s.notifyRunning = true)
    (h : Represents s.efiKeyQueueForNotify (keyData :: queued)) :
    SameRegistrations s (keyNotifyProcessHandler s) ∧
      Represents (keyNotifyProcessHandler s).efiKeyQueueForNotify queued ∧
      (keyNotifyProcessHandler s).calls = s.calls ++ notificationsFor s.notifyList keyData ∧
      (keyNotifyProcessHandler s).notifyRunning = true := by
  obtain ⟨hpop, hrest⟩ := efiKeyQueue_refines.pop h
  rw [keyNotifyProcessHandler, hrunning, if_neg (by decide)]
  generalize KeyQueue.pop s.efiKeyQueueForNotify = popped at hpop hrest
  obtain ⟨answer, queue⟩ := popped
  obtain rfl : answer = .ok keyData := hpop
  exact ⟨⟨rfl, rfl⟩, hrest, rfl, rfl⟩

/-- A pass that finds the queue empty ends the handler. -/
theorem keyNotifyProcessHandler_nil (hrunning : s.notifyRunning = true)
    (h : Represents s.efiKeyQueueForNotify []) :
    SameRegistrations s (keyNotifyProcessHandler s) ∧
      Represents (keyNotifyProcessHandler s).efiKeyQueueForNotify [] ∧
      (keyNotifyProcessHandler s).calls = s.calls ∧
      (keyNotifyProcessHandler s).notifyRunning = false := by
  obtain ⟨hpop, hrest⟩ := efiKeyQueue_refines.pop h
  rw [keyNotifyProcessHandler, hrunning, if_neg (by decide)]
  generalize KeyQueue.pop s.efiKeyQueueForNotify = popped at hpop hrest
  obtain ⟨answer, queue⟩ := popped
  obtain rfl : answer = .error .notReady := hpop
  exact ⟨⟨rfl, rfl⟩, hrest, rfl, rfl⟩

end KeypadTextIn

end ProjectMu
