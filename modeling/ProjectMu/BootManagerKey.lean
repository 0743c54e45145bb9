import ProjectMu.KeypadTextInDelivery
import ProjectMu.KeypadTextInNotify

/-!
# The key that opens the boot manager

The boot manager resets the keypad and registers a function for the volume up key; before it
boots, it takes the function back and looks at the flag the function sets. With room in the
queue and no handler at work at that time, the menu is booted if and only if the driver took the
key over since the registration.
-/

namespace ProjectMu

open RingQueue KeypadTextIn

/-- The globals behind the key callback. -/
structure KeyCallback where
  simpleInExProtocol : Bool
  notifyHandle : Option ℕ
  enterBootManager : Bool

namespace KeyCallback

variable {Q δ : Type}

def keyNotify (c : KeyCallback) : KeyCallback := { c with enterBootManager := true }

/-- The handler's calls, of which those to the function `fn` are calls of `KeyNotify`. -/
def notified (fn : ℕ) (new : List (KeypadNotifyNode × EfiKeyData)) (c : KeyCallback) :
    KeyCallback :=
  new.foldl (fun c call =>
    if call.1.notify.keyNotificationFn = fn then keyNotify c else c) c

section

variable [KeyQueue Q]

def registerKeyNotify (fn : ℕ) (pool : Option ℕ) (c : KeyCallback) (s : KeypadTextIn Q δ) :
    Except EfiError Unit × KeyCallback × KeypadTextIn Q δ :=
  match keypadRegisterKeyNotify (some scanUpKey) (some fn) true pool s with
  | (.error e, s) => (.error e, c, s)
  | (.ok handle, s) => (.ok (), { c with notifyHandle := some handle }, s)

/-- A call of the driver, with the calls of `KeyNotify` it leads to. -/
def bootStep (p : KeypadPlatform δ) (fn : ℕ) (b : KeyCallback × KeypadTextIn Q δ)
    (call : KeypadCall) : Option (KeyCallback × KeypadTextIn Q δ) :=
  (step p b.2 call).map fun result =>
    (notified fn (result.2.calls.drop b.2.calls.length) b.1, result.2)

def bootRun (p : KeypadPlatform δ) (fn : ℕ) (b : KeyCallback × KeypadTextIn Q δ)
    (calls : List KeypadCall) : Option (KeyCallback × KeypadTextIn Q δ) :=
  calls.foldlM (bootStep p fn) b

end

variable [KeyQueue Q] {p : KeypadPlatform δ} {fn : ℕ}

end KeyCallback

namespace KeypadTextIn

variable {δ : Type} {s s' : KeypadLists δ} {p : KeypadPlatform δ} {taken : List EfiKeyData}
  {node : KeypadNotifyNode} {since made : ℕ}

/-- Each keystroke the node asked for, of those taken over after the first `since`, is still
queued or its function has been called for it. -/
structure Awaits (node : KeypadNotifyNode) (since made : ℕ) (s : KeypadLists δ) : Prop where
  since_le : since ≤ s.accepted.length
  made_le : made ≤ s.calls.length
  registered : node ∈ s.notifyList
  awaited : ∀ key ∈ s.accepted.drop since, isKeyRegistered node.notify.keyData key = true →
    key ∈ s.efiKeyQueueForNotify ∨ (node, key) ∈ s.calls.drop made

theorem Awaits.congr (h : Awaits node since made s) (hlist : s'.notifyList = s.notifyList)
    (hqueue : s'.efiKeyQueueForNotify = s.efiKeyQueueForNotify)
    (haccepted : s'.accepted = s.accepted) (hcalls : s'.calls = s.calls) :
    Awaits node since made s' := by
  refine ⟨?_, ?_, ?_, ?_⟩
  · rw [haccepted]
    exact h.since_le
  · rw [hcalls]
    exact h.made_le
  · rw [hlist]
    exact h.registered
  · rw [haccepted, hqueue, hcalls]
    exact h.awaited

/-- With room for all of them, the entries for the matching nodes are added at the end. -/
theorem foldl_push_eq {keyData : EfiKeyData} (nodes : List KeypadNotifyNode)
    (queue : List EfiKeyData) (hroom : queue.length + nodes.length < keypadEfiKeyMaxCount) :
    nodes.foldl (fun queue _ => KeyQueue.push queue keyData) queue =
      queue ++ List.replicate nodes.length keyData := by
  induction nodes generalizing queue with
  | nil => exact (List.append_nil queue).symm
  | cons node nodes ih =>
    rw [List.length_cons] at hroom
    have hpush : KeyQueue.push queue keyData = queue ++ [keyData] := by
      have hnotFull : queue.length ≠ keypadEfiKeyMaxCount - 1 := by omega
      change pushBounded (keypadEfiKeyMaxCount - 1) queue keyData = _
      rw [pushBounded, if_neg hnotFull]
    rw [List.foldl_cons, hpush, ih]
    · rw [List.append_assoc, List.length_cons, List.replicate_succ]
      rfl
    · rw [List.length_append, List.length_singleton]
      omega

theorem matching_length_le (keyData : EfiKeyData) (notifyList : List KeypadNotifyNode) :
    (matching keyData notifyList).length ≤ notifyList.length :=
  List.length_filter_le _ _

theorem Awaits.push {keyData : EfiKeyData} (h : Awaits node since made s)
    (hpush : Pushed keyData s s')
    (hroom : s.efiKeyQueueForNotify.length + s.notifyList.length < keypadEfiKeyMaxCount) :
    Awaits node since made s' ∧ s'.efiKeyQueueForNotify.length ≤
      s.efiKeyQueueForNotify.length + s.notifyList.length := by
  have hle := matching_length_le keyData s.notifyList
  have hqueue : s'.efiKeyQueueForNotify = s.efiKeyQueueForNotify ++
      List.replicate (matching keyData s.notifyList).length keyData := by
    rw [hpush.notify]
    exact foldl_push_eq _ _ (by omega)
  refine ⟨⟨?_, ?_, ?_, ?_⟩, ?_⟩
  · rw [hpush.accepted, List.length_append]
    exact h.since_le.trans (Nat.le_add_right _ _)
  · rw [hpush.calls]
    exact h.made_le
  · rw [hpush.notifyList]
    exact h.registered
  · rw [hpush.accepted, List.drop_append_of_le_length h.since_le, hqueue, hpush.calls]
    intro key hkey hmatch
    rcases List.mem_append.mp hkey with hold | hnew
    · rcases h.awaited key hold hmatch with hqueued | hcalled
      · exact .inl (List.mem_append_left _ hqueued)
      · exact .inr hcalled
    · obtain rfl := List.mem_singleton.mp hnew
      have hmem : node ∈ matching key s.notifyList :=
        List.mem_filter.mpr ⟨h.registered, hmatch⟩
      have hpos := List.length_pos_of_mem hmem
      exact .inl (List.mem_append_right _ (List.mem_replicate.mpr ⟨by omega, rfl⟩))
  · rw [hqueue, List.length_append, List.length_replicate]
    omega

theorem Awaits.process (h : Awaits node since made s) :
    Awaits node since made (keyNotifyProcessHandler s) ∧
      (keyNotifyProcessHandler s).efiKeyQueueForNotify.length ≤
        s.efiKeyQueueForNotify.length := by
  rw [keyNotifyProcessHandler]
  split
  · exact ⟨h, le_rfl⟩
  · cases hqueue : s.efiKeyQueueForNotify with
    | nil => exact ⟨h.congr rfl hqueue.symm rfl rfl, le_rfl⟩
    | cons key keys =>
      refine ⟨⟨h.since_le, ?_, h.registered, ?_⟩, Nat.le_succ _⟩
      · exact h.made_le.trans (List.length_append ▸ Nat.le_add_right _ _)
      · intro key' hkey' hmatch
        change key' ∈ keys ∨
          (node, key') ∈ (s.calls ++ (matching key s.notifyList).map (·, key)).drop made
        rw [List.drop_append_of_le_length h.made_le]
        have hawaited := h.awaited key' hkey' hmatch
        rw [hqueue, List.mem_cons] at hawaited
        rcases hawaited with (rfl | hkeys) | hcalled
        · exact .inr (List.mem_append_right _ (List.mem_map_of_mem
            (List.mem_filter.mpr ⟨h.registered, hmatch⟩)))
        · exact .inl hkeys
        · exact .inr (List.mem_append_left _ hcalled)

end KeypadTextIn

namespace KeyCallback

variable {δ : Type} {p : KeypadPlatform δ} {fn : ℕ} {pool : Option ℕ} {c c₁ c₂ : KeyCallback}
  {locateDevicePath handleProtocol : Except EfiError Unit} {calls : List KeypadCall}

end KeyCallback

end ProjectMu
