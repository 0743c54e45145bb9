import ProjectMu.KeypadQueue

/-!
# Binding and unbinding the keypad driver

`KeypadControllerDriverStart` and `KeypadControllerDriverStop` over the device structures and
events that exist, for several controllers. Which calls of the boot services fail is given
by the outcomes a call comes with. A device or event that is gone is never handed out again,
so its number tells whether it is still there.
-/

namespace ProjectMu

/-- The four events of a device, by the field that holds them. -/
inductive KeypadEventKind
  | waitForKey
  | waitForKeyEx
  | timerEvent
  | keyNotifyProcessEvent
  deriving DecidableEq, Repr

structure KeypadEvent where
  kind : KeypadEventKind
  context : ℕ
  periodic : Bool

structure KeypadConsoleInDev where
  event : KeypadEventKind → Option ℕ
  controllerNameTable : Bool
  notifyList : List KeypadNotify

def KeypadConsoleInDev.zero : KeypadConsoleInDev := ⟨fun _ => none, false, []⟩

/-- What exists: the devices and events by number, which controllers have their keypad
protocol open by the driver, and whose text input interfaces a controller carries. -/
structure KeypadDriver where
  devices : ℕ → Option KeypadConsoleInDev
  nextDevice : ℕ
  events : ℕ → Option KeypadEvent
  nextEvent : ℕ
  keypadOpen : ℕ → Bool
  textIn : ℕ → Option ℕ
  strayAccess : Bool

def KeypadDriver.initial : KeypadDriver :=
  ⟨fun _ => none, 0, fun _ => none, 0, fun _ => false, fun _ => none, false⟩

inductive KeypadStatus
  | success
  | failed
  deriving DecidableEq, Repr

namespace KeypadDriver

def modifyDevice (d : ℕ) (f : KeypadConsoleInDev → KeypadConsoleInDev) (s : KeypadDriver) :
    KeypadDriver :=
  { s with devices := Function.update s.devices d ((s.devices d).map f) }

def allocateDevice (s : KeypadDriver) : KeypadDriver :=
  { s with
    devices := Function.update s.devices s.nextDevice (some .zero)
    nextDevice := s.nextDevice + 1 }

def freeDevice (d : ℕ) (s : KeypadDriver) : KeypadDriver :=
  { s with devices := Function.update s.devices d none }

def setEvent (d : ℕ) (kind : KeypadEventKind) (event : Option ℕ) (s : KeypadDriver) :
    KeypadDriver :=
  s.modifyDevice d fun dev => { dev with event := Function.update dev.event kind event }

/-- `CreateEvent` with the device as its context and the field of the device it fills. -/
def createEvent (kind : KeypadEventKind) (d : ℕ) (s : KeypadDriver) : KeypadDriver :=
  setEvent d kind (some s.nextEvent)
    { s with
      events := Function.update s.events s.nextEvent (some ⟨kind, d, false⟩)
      nextEvent := s.nextEvent + 1 }

def closeEvent (e : ℕ) (s : KeypadDriver) : KeypadDriver :=
  { s with events := Function.update s.events e none }

/-- The event in a field of the device, if there is a device and the field is not `NULL`. -/
def eventOf (s : KeypadDriver) (consoleIn : Option ℕ) (kind : KeypadEventKind) : Option ℕ :=
  (consoleIn.bind s.devices).bind (·.event kind)

def setTimerPeriodic (d : ℕ) (s : KeypadDriver) : KeypadDriver :=
  match s.eventOf (some d) .timerEvent with
  | none => s
  | some e =>
    { s with
      events := Function.update s.events e
        ((s.events e).map fun event => { event with periodic := true }) }

/-- The chain of tests that finds the first of some fields that is not `NULL`. -/
def firstEventOf (s : KeypadDriver) (consoleIn : Option ℕ) (kinds : List KeypadEventKind) :
    Option (KeypadEventKind × ℕ) :=
  kinds.findSome? fun kind => (s.eventOf consoleIn kind).map (kind, ·)

/-- Without a device the list head is a field of a structure that does not exist. -/
def kbdFreeNotifyList (consoleIn : Option ℕ) (s : KeypadDriver) : KeypadDriver :=
  match consoleIn with
  | none => { s with strayAccess := true }
  | some d => s.modifyDevice d fun dev => { dev with notifyList := [] }

def hasNameTable (s : KeypadDriver) (d : ℕ) : Bool :=
  (s.devices d).any (·.controllerNameTable)

def setOpen (controller : ℕ) (isOpen : Bool) (s : KeypadDriver) : KeypadDriver :=
  { s with keypadOpen := Function.update s.keypadOpen controller isOpen }

def setTextIn (controller : ℕ) (d : Option ℕ) (s : KeypadDriver) : KeypadDriver :=
  { s with textIn := Function.update s.textIn controller d }

end KeypadDriver

/-- Which calls of a `KeypadControllerDriverStart` succeed. -/
structure StartOutcomes where
  openProtocol : Bool
  allocateZeroPool : Bool
  createEvent : KeypadEventKind → Bool
  setTimer : Bool
  reset : Bool
  addUnicodeString2 : Bool
  installMultipleProtocolInterfaces : Bool

/-- From the first event to the installed interfaces, up to the first call that fails. -/
def setUpConsoleIn (o : StartOutcomes) (controller consoleIn : ℕ) (s : KeypadDriver) :
    KeypadStatus × KeypadDriver :=
  if o.createEvent .waitForKey = false then (.failed, s) else
  let s := s.createEvent .waitForKey consoleIn
  if o.createEvent .waitForKeyEx = false then (.failed, s) else
  let s := s.createEvent .waitForKeyEx consoleIn
  if o.createEvent .timerEvent = false then (.failed, s) else
  let s := s.createEvent .timerEvent consoleIn
  if o.setTimer = false then (.failed, s) else
  let s := s.setTimerPeriodic consoleIn
  if o.createEvent .keyNotifyProcessEvent = false then (.failed, s) else
  let s := s.createEvent .keyNotifyProcessEvent consoleIn
  if o.reset = false then (.failed, s) else
  let s := s.modifyDevice consoleIn fun dev =>
    { dev with controllerNameTable := o.addUnicodeString2 }
  if o.installMultipleProtocolInterfaces = false then (.failed, s) else
  (.success, s.setTextIn controller (some consoleIn))

/-- The block `CleanUp`. Where there is a table of names, that is freed and not the device. -/
def startCleanUp (controller : ℕ) (consoleIn : Option ℕ) (s : KeypadDriver) : KeypadDriver :=
  let s := match s.firstEventOf consoleIn
      [.waitForKey, .timerEvent, .waitForKeyEx, .keyNotifyProcessEvent] with
    | some (_, e) => s.closeEvent e
    | none => s
  let s := s.kbdFreeNotifyList consoleIn
  let s := match consoleIn with
    | some d => if s.hasNameTable d then s else s.freeDevice d
    | none => s
  s.setOpen controller false

def keypadControllerDriverStart (o : StartOutcomes) (controller : ℕ) (s : KeypadDriver) :
    KeypadStatus × KeypadDriver :=
  -- a protocol that the driver has open already cannot be opened a second time
  if o.openProtocol = false ∨ s.keypadOpen controller = true then (.failed, s) else
  let s := s.setOpen controller true
  if o.allocateZeroPool = false then (.failed, startCleanUp controller none s) else
  let consoleIn := s.nextDevice
  match setUpConsoleIn o controller consoleIn s.allocateDevice with
  | (.failed, s) => (.failed, startCleanUp controller (some consoleIn) s)
  | (.success, s) => (.success, s)

/-- Which calls of a `KeypadControllerDriverStop` succeed. -/
structure StopOutcomes where
  openTextIn : Bool
  testTextInEx : Bool
  uninstallMultipleProtocolInterfaces : Bool

/-- What `KeypadControllerDriverStop` does before it takes the interfaces away. -/
def stopTimer (consoleIn : ℕ) (s : KeypadDriver) : KeypadDriver :=
  match s.eventOf (some consoleIn) .timerEvent with
  | some e => (s.closeEvent e).setEvent consoleIn .timerEvent none
  | none => s

/-- What it does once they are gone. -/
def stopRelease (controller consoleIn : ℕ) (s : KeypadDriver) : KeypadDriver :=
  let s := (s.setTextIn controller none).setOpen controller false
  let s := match s.firstEventOf (some consoleIn)
      [.waitForKey, .waitForKeyEx, .keyNotifyProcessEvent] with
    | some (kind, e) => (s.closeEvent e).setEvent consoleIn kind none
    | none => s
  (s.kbdFreeNotifyList (some consoleIn)).freeDevice consoleIn

def keypadControllerDriverStop (o : StopOutcomes) (controller : ℕ) (s : KeypadDriver) :
    KeypadStatus × KeypadDriver :=
  match s.textIn controller with
  | none => (.failed, s)
  | some consoleIn =>
    if o.openTextIn = false then (.failed, s) else
    if o.testTextInEx = false then (.failed, s) else
    let s := stopTimer consoleIn s
    if o.uninstallMultipleProtocolInterfaces = false then (.failed, s) else
    (.success, stopRelease controller consoleIn s)

inductive BindingCall
  | start (o : StartOutcomes) (controller : ℕ)
  | stop (o : StopOutcomes) (controller : ℕ)

def KeypadDriver.call (s : KeypadDriver) : BindingCall → KeypadStatus × KeypadDriver
  | .start o controller => keypadControllerDriverStart o controller s
  | .stop o controller => keypadControllerDriverStop o controller s

/-- The context of every open event is a device that has not been freed. -/
def KeypadDriver.ContextsAlive (s : KeypadDriver) : Prop :=
  ∀ e event, s.events e = some event → (s.devices event.context).isSome

/-- A failed start leaves no event, device or open protocol that was not there before it. -/
structure LeavesNothing (controller : ℕ) (s s' : KeypadDriver) : Prop where
  events : ∀ e, (s'.events e).isSome → (s.events e).isSome
  devices : ∀ d, (s'.devices d).isSome → (s.devices d).isSome
  closed : s'.keypadOpen controller = true → s.keypadOpen controller = true

/-- A successful stop leaves neither the device, nor an event of it, nor the protocol open. -/
structure Released (controller consoleIn : ℕ) (s' : KeypadDriver) : Prop where
  events : ∀ e event, s'.events e = some event → event.context ≠ consoleIn
  device : s'.devices consoleIn = none
  closed : s'.keypadOpen controller = false

/-- What a call returns with, beyond the state of the contexts. -/
def CallReleases (s : KeypadDriver) : BindingCall → Prop
  | .start o controller =>
    (keypadControllerDriverStart o controller s).1 = .failed →
      LeavesNothing controller s (keypadControllerDriverStart o controller s).2
  | .stop o controller =>
    (keypadControllerDriverStop o controller s).1 = .success →
      ∀ consoleIn ∈ s.textIn controller,
        Released controller consoleIn (keypadControllerDriverStop o controller s).2

structure CallSafe (s : KeypadDriver) (call : BindingCall) : Prop where
  contexts : (s.call call).2.ContextsAlive
  access : (s.call call).2.strayAccess = false
  releases : CallReleases s call

/-- Every call of a sequence is safe in the state it is made in. -/
def RunSafe : KeypadDriver → List BindingCall → Prop
  | s, [] => s.ContextsAlive ∧ s.strayAccess = false
  | s, call :: calls => CallSafe s call ∧ RunSafe (s.call call).2 calls

/-- No call after the first two events fails. -/
def StartOutcomes.Finishes (o : StartOutcomes) : Prop :=
  o.createEvent .timerEvent = true ∧ o.setTimer = true ∧
    o.createEvent .keyNotifyProcessEvent = true ∧ o.reset = true ∧
    o.installMultipleProtocolInterfaces = true

/-- A start succeeds, or fails before it opens the protocol, or with a device that has at
most one event. -/
def StartOutcomes.Meets (o : StartOutcomes) (controller : ℕ) (s : KeypadDriver) : Prop :=
  o.openProtocol = false ∨ s.keypadOpen controller = true ∨
    o.allocateZeroPool = true ∧
      (o.createEvent .waitForKey = false ∨ o.createEvent .waitForKeyEx = false ∨ o.Finishes)

/-- A stop does not get to release a device. -/
def StopOutcomes.Meets (o : StopOutcomes) (controller : ℕ) (s : KeypadDriver) : Prop :=
  s.textIn controller = none ∨ o.openTextIn = false ∨ o.testTextInEx = false ∨
    o.uninstallMultipleProtocolInterfaces = false

def BindingCall.Meets (s : KeypadDriver) : BindingCall → Prop
  | .start o controller => o.Meets controller s
  | .stop o controller => o.Meets controller s

def RunMeets : KeypadDriver → List BindingCall → Prop
  | _, [] => True
  | s, call :: calls => call.Meets s ∧ RunMeets (s.call call).2 calls

end ProjectMu
