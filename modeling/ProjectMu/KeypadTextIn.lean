import ProjectMu.KeypadQueue

/-!
# The text input interfaces of the keypad driver

The state behind `EFI_SIMPLE_TEXT_INPUT_PROTOCOL` and its extended form, and every call that
changes it: the timer that polls the keypad, the reads, the wait event, the toggle state, the
reset, and the notify list with its handler. The keypad itself and the performance counter are
not part of the driver; they come as a platform with a state of its own. The functions are
stated for any queue of keystrokes, so that the rings of the driver and plain lists run the same
code.
-/

namespace ProjectMu

open RingQueue

structure EfiInputKey where
  scanCode : BitVec 16
  unicodeChar : BitVec 16
  deriving DecidableEq, Repr

def efiRightControlPressed : BitVec 32 := 0x4

def efiLeftControlPressed : BitVec 32 := 0x8

def efiScrollLockActive : BitVec 8 := 0x01

def efiNumLockActive : BitVec 8 := 0x02

def efiCapsLockActive : BitVec 8 := 0x04

def efiKeyStateExposed : BitVec 8 := 0x40

def efiToggleStateValid : BitVec 8 := 0x80

/-- What the driver does with a queue of keystrokes. -/
class KeyQueue (Q : Type) where
  clear : Q → Q
  isEmpty : Q → Bool
  first : Q → EfiKeyData
  pop : Q → Except EfiError EfiKeyData × Q
  push : Q → EfiKeyData → Q
  pop_first : ∀ queue, isEmpty queue = false → (pop queue).1 = .ok (first queue)

instance : KeyQueue EfiKeyQueue where
  clear queue := { queue with head := 0, tail := 0 }
  isEmpty := isEfikeyBufEmpty
  first queue := queue.buffer queue.head
  pop := popEfikeyBufHead
  push := pushEfikeyBufTail
  pop_first queue hne := by rw [popEfikeyBufHead, hne, if_neg Bool.false_ne_true]

instance : KeyQueue (List EfiKeyData) where
  clear _ := []
  isEmpty := List.isEmpty
  first keys := keys.headD ⟨0, 0, 0, 0⟩
  pop := popOldest
  push := pushBounded (keypadEfiKeyMaxCount - 1)
  pop_first
    | [], hne => absurd hne (by decide)
    | _ :: _, _ => rfl

/-- A node of the notify list. Its owner knows it by its address in the pool. -/
structure KeypadNotifyNode where
  handle : ℕ
  notify : KeypadNotify
  deriving DecidableEq, Repr

/-- The keypad and the counter behind the driver. -/
structure KeypadPlatform (δ : Type) where
  getPerformanceCounter : δ → BitVec 64 × δ
  getTimeInNanoSecond : BitVec 64 → BitVec 64
  getKeys : BitVec 64 → δ → List EfiKeyData × δ
  reset : δ → δ

/-- The console device, with the keystrokes it has taken and the calls its handler has made. -/
structure KeypadTextIn (Q δ : Type) where
  device : δ
  keypadErr : Bool
  last : BitVec 64
  capsLock : Bool
  numLock : Bool
  scrollLock : Bool
  isSupportPartialKey : Bool
  efiKeyQueue : Q
  efiKeyQueueForNotify : Q
  notifyList : List KeypadNotifyNode
  notifySignaled : Bool
  notifyRunning : Bool
  accepted : List EfiKeyData
  calls : List (KeypadNotifyNode × EfiKeyData)

/-- The keystroke of the volume up key, with no state. -/
def scanUpKey : EfiKeyData := ⟨0x0001, 0, 0, 0⟩

/-- A keystroke without code and character. -/
def EfiKeyData.IsPartial (keyData : EfiKeyData) : Prop :=
  keyData.scanCode = 0 ∧ keyData.unicodeChar = 0

instance (keyData : EfiKeyData) : Decidable keyData.IsPartial :=
  inferInstanceAs (Decidable (_ ∧ _))

/-- The key of `ReadKeyStroke`: a letter with a control key is its control character. -/
def EfiKeyData.toInputKey (keyData : EfiKeyData) : EfiInputKey :=
  if keyData.keyShiftState &&& (efiLeftControlPressed ||| efiRightControlPressed) ≠ 0 then
    if 0x61 ≤ keyData.unicodeChar ∧ keyData.unicodeChar ≤ 0x7A then
      ⟨keyData.scanCode, keyData.unicodeChar - 0x61 + 1⟩
    else if 0x41 ≤ keyData.unicodeChar ∧ keyData.unicodeChar ≤ 0x5A then
      ⟨keyData.scanCode, keyData.unicodeChar - 0x41 + 1⟩
    else ⟨keyData.scanCode, keyData.unicodeChar⟩
  else ⟨keyData.scanCode, keyData.unicodeChar⟩

namespace KeypadTextIn

variable {Q δ : Type} [KeyQueue Q]

def queueForNotify (keyData : EfiKeyData) (notifyList : List KeypadNotifyNode)
    (s : KeypadTextIn Q δ) : KeypadTextIn Q δ :=
  notifyList.foldl (fun s node =>
    if isKeyRegistered node.notify.keyData keyData then
      { s with
        efiKeyQueueForNotify := KeyQueue.push s.efiKeyQueueForNotify keyData
        notifySignaled := true }
    else s) s

def keypadReturnApiPushEfikeyBufTail (keyData : EfiKeyData) (s : KeypadTextIn Q δ) :
    KeypadTextIn Q δ :=
  if keyData.IsPartial ∧ s.isSupportPartialKey = false then s
  else
    let s := queueForNotify keyData s.notifyList s
    { s with
      efiKeyQueue := KeyQueue.push s.efiKeyQueue keyData
      accepted := s.accepted ++ [keyData] }

/-- The keypad hands its keystrokes over one by one while it is polled. -/
def pushKeys (keys : List EfiKeyData) (s : KeypadTextIn Q δ) : KeypadTextIn Q δ :=
  keys.foldl (fun s keyData => keypadReturnApiPushEfikeyBufTail keyData s) s

def keypadError (s : KeypadTextIn Q δ) : KeypadTextIn Q δ := { s with keypadErr := true }

def keypadTimerHandler (p : KeypadPlatform δ) (s : KeypadTextIn Q δ) : KeypadTextIn Q δ :=
  if s.keypadErr then s
  else
    let counter := p.getPerformanceCounter s.device
    let polled := p.getKeys (p.getTimeInNanoSecond (counter.1 - s.last)) counter.2
    pushKeys polled.1 { s with device := polled.2, last := counter.1 }

def initKeypad (p : KeypadPlatform δ) (s : KeypadTextIn Q δ) : KeypadTextIn Q δ :=
  { s with
    device := p.reset s.device
    efiKeyQueue := KeyQueue.clear s.efiKeyQueue
    efiKeyQueueForNotify := KeyQueue.clear s.efiKeyQueueForNotify
    capsLock := false
    numLock := false
    scrollLock := false
    isSupportPartialKey := false }

def keypadEfiReset (p : KeypadPlatform δ) (s : KeypadTextIn Q δ) :
    Except EfiError Unit × KeypadTextIn Q δ :=
  if s.keypadErr then (.error efiDeviceError, s) else (.ok (), initKeypad p s)

def keypadReadKeyStrokeWorker (p : KeypadPlatform δ) (s : KeypadTextIn Q δ) :
    Except EfiError EfiKeyData × KeypadTextIn Q δ :=
  let s := keypadTimerHandler p s
  if s.keypadErr then (.error efiDeviceError, s)
  else
    let popped := KeyQueue.pop s.efiKeyQueue
    (popped.1, { s with efiKeyQueue := popped.2 })

/-- `keyData` tells whether the caller gave a buffer. -/
def keypadReadKeyStrokeEx (p : KeypadPlatform δ) (keyData : Bool) (s : KeypadTextIn Q δ) :
    Except EfiError EfiKeyData × KeypadTextIn Q δ :=
  if keyData = false then (.error .invalidParameter, s) else keypadReadKeyStrokeWorker p s

/-- The loop reads on after a partial keystroke, here for at most the given number of passes. -/
def keypadReadKeyStroke (p : KeypadPlatform δ) :
    ℕ → KeypadTextIn Q δ → Option (Except EfiError EfiInputKey × KeypadTextIn Q δ)
  | 0, _ => none
  | n + 1, s =>
    match keypadReadKeyStrokeWorker p s with
    | (.error e, s) => some (.error e, s)
    | (.ok keyData, s) =>
      if keyData.IsPartial then keypadReadKeyStroke p n s
      else some (.ok keyData.toInputKey, s)

/-- The wait event drops partial keystrokes until it finds another one; each pass takes one off
the queue, which never holds as many as it has cells. -/
def skipPartialKeys : ℕ → Q → Bool × Q
  | 0, queue => (false, queue)
  | n + 1, queue =>
    if KeyQueue.isEmpty queue then (false, queue)
    else if (KeyQueue.first queue).IsPartial then skipPartialKeys n (KeyQueue.pop queue).2
    else (true, queue)

/-- Whether the event is signaled. -/
def keypadWaitForKey (p : KeypadPlatform δ) (s : KeypadTextIn Q δ) : Bool × KeypadTextIn Q δ :=
  let s := keypadTimerHandler p s
  if s.keypadErr then (false, s)
  else
    let skipped := skipPartialKeys keypadEfiKeyMaxCount s.efiKeyQueue
    (skipped.1, { s with efiKeyQueue := skipped.2 })

def keypadSetState (keyToggleState : Option (BitVec 8)) (s : KeypadTextIn Q δ) :
    Except EfiError Unit × KeypadTextIn Q δ :=
  match keyToggleState with
  | none => (.error .invalidParameter, s)
  | some state =>
    if s.keypadErr then (.error efiDeviceError, s)
    else if state &&& efiToggleStateValid ≠ efiToggleStateValid then (.error efiUnsupported, s)
    else
      let s := { s with
        scrollLock := false, numLock := false, capsLock := false, isSupportPartialKey := false }
      if state &&& efiScrollLockActive = efiScrollLockActive then
        (.ok (), { s with scrollLock := true })
      else if state &&& efiNumLockActive = efiNumLockActive then
        (.ok (), { s with numLock := true })
      else if state &&& efiCapsLockActive = efiCapsLockActive then
        (.ok (), { s with capsLock := true })
      else if state &&& efiKeyStateExposed = efiKeyStateExposed then
        (.ok (), { s with isSupportPartialKey := true })
      else (.ok (), s)

/-- The node that already calls the function for the keystroke. -/
def registeredNode (keyData : EfiKeyData) (keyNotificationFn : ℕ)
    (notifyList : List KeypadNotifyNode) : Option KeypadNotifyNode :=
  notifyList.find? fun node =>
    isKeyRegistered node.notify.keyData keyData &&
      node.notify.keyNotificationFn == keyNotificationFn

/-- `pool` is the node `AllocateZeroPool` returns; `notifyHandle` tells whether the caller gave
a place for the handle. -/
def keypadRegisterKeyNotify (keyData : Option EfiKeyData) (keyNotificationFn : Option ℕ)
    (notifyHandle : Bool) (pool : Option ℕ) (s : KeypadTextIn Q δ) :
    Except EfiError ℕ × KeypadTextIn Q δ :=
  match keyData, keyNotificationFn, notifyHandle with
  | some keyData, some keyNotificationFn, true =>
    match registeredNode keyData keyNotificationFn s.notifyList with
    | some node => (.ok node.handle, s)
    | none =>
      match pool with
      | none => (.error .outOfResources, s)
      | some handle =>
        (.ok handle,
          { s with notifyList := s.notifyList ++ [⟨handle, ⟨keyData, keyNotificationFn⟩⟩] })
  | _, _, _ => (.error .invalidParameter, s)

def keypadUnregisterKeyNotify (notificationHandle : Option ℕ) (s : KeypadTextIn Q δ) :
    Except EfiError Unit × KeypadTextIn Q δ :=
  match notificationHandle with
  | none => (.error .invalidParameter, s)
  | some handle =>
    if s.notifyList.any (fun node => node.handle == handle) then
      (.ok (), { s with notifyList := s.notifyList.eraseP (fun node => node.handle == handle) })
    else (.error .invalidParameter, s)

/-- The event that was signaled starts the handler, unless it is still at work. -/
def dispatchNotify (s : KeypadTextIn Q δ) : KeypadTextIn Q δ :=
  if s.notifySignaled ∧ s.notifyRunning = false then
    { s with notifySignaled := false, notifyRunning := true }
  else s

/-- One pass of the handler's loop, which it leaves at an empty queue. The functions it calls do
not call back into the driver. -/
def keyNotifyProcessHandler (s : KeypadTextIn Q δ) : KeypadTextIn Q δ :=
  if s.notifyRunning = false then s
  else
    match KeyQueue.pop s.efiKeyQueueForNotify with
    | (.error _, queue) => { s with efiKeyQueueForNotify := queue, notifyRunning := false }
    | (.ok keyData, queue) =>
      { s with
        efiKeyQueueForNotify := queue
        calls := s.calls ++ (s.notifyList.filter fun node =>
          isKeyRegistered node.notify.keyData keyData).map (·, keyData) }

end KeypadTextIn

open KeypadTextIn

/-- What can happen to the device, in any order. Everything that runs at `TPL_NOTIFY` is one
call; the handler runs below it, so each of its passes is one. -/
inductive KeypadCall
  | error
  | timer
  | readKeyStroke (passes : ℕ)
  | readKeyStrokeEx (keyData : Bool)
  | waitForKey
  | reset
  | setState (keyToggleState : Option (BitVec 8))
  | registerKeyNotify (keyData : Option EfiKeyData) (keyNotificationFn : Option ℕ)
      (notifyHandle : Bool) (pool : Option ℕ)
  | unregisterKeyNotify (notificationHandle : Option ℕ)
  | dispatch
  | process

inductive KeypadReply
  | done
  | inputKey (key : Except EfiError EfiInputKey)
  | keyData (key : Except EfiError EfiKeyData)
  | signaled (signaled : Bool)
  | status (status : Except EfiError Unit)
  | notifyHandle (handle : Except EfiError ℕ)

namespace KeypadTextIn

variable {Q δ : Type} [KeyQueue Q]

/-- Without a result the call has not come to an end in the passes it was given. -/
def step (p : KeypadPlatform δ) (s : KeypadTextIn Q δ) :
    KeypadCall → Option (KeypadReply × KeypadTextIn Q δ)
  | .error => some (.done, keypadError s)
  | .timer => some (.done, keypadTimerHandler p s)
  | .readKeyStroke passes => (keypadReadKeyStroke p passes s).map (Prod.map .inputKey id)
  | .readKeyStrokeEx keyData => some ((keypadReadKeyStrokeEx p keyData s).map .keyData id)
  | .waitForKey => some ((keypadWaitForKey p s).map .signaled id)
  | .reset => some ((keypadEfiReset p s).map .status id)
  | .setState keyToggleState => some ((keypadSetState keyToggleState s).map .status id)
  | .registerKeyNotify keyData keyNotificationFn notifyHandle pool =>
    some ((keypadRegisterKeyNotify keyData keyNotificationFn notifyHandle pool s).map
      .notifyHandle id)
  | .unregisterKeyNotify handle => some ((keypadUnregisterKeyNotify handle s).map .status id)
  | .dispatch => some (.done, dispatchNotify s)
  | .process => some (.done, keyNotifyProcessHandler s)

def run (p : KeypadPlatform δ) :
    KeypadTextIn Q δ → List KeypadCall → Option (List KeypadReply × KeypadTextIn Q δ)
  | s, [] => some ([], s)
  | s, call :: calls =>
    match step p s call with
    | none => none
    | some (reply, s) => (run p s calls).map (Prod.map (reply :: ·) id)

/-- The device after `AllocateZeroPool`, with the last counter value the driver sets. -/
def initial (device : δ) (queue : Q) : KeypadTextIn Q δ :=
  { device
    keypadErr := false
    last := BitVec.allOnes 64
    capsLock := false
    numLock := false
    scrollLock := false
    isSupportPartialKey := false
    efiKeyQueue := queue
    efiKeyQueueForNotify := queue
    notifyList := []
    notifySignaled := false
    notifyRunning := false
    accepted := []
    calls := [] }

/-- A keypad that hands the same keystrokes over at each poll. -/
def constantKeypad (keys : List EfiKeyData) : KeypadPlatform Unit where
  getPerformanceCounter _ := (0, ())
  getTimeInNanoSecond delta := delta
  getKeys _ _ := (keys, ())
  reset _ := ()

end KeypadTextIn

end ProjectMu
