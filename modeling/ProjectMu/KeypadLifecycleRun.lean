import ProjectMu.KeypadLifecycle

/-!
# Which bind and unbind sequences are safe

`Building s₀ made s` follows a start that has given its device the events `made`. The clean
up closes the first of them only, and so does a successful stop with the events that are
left; so a sequence is safe exactly when no start fails with two or more events made, or
without a device, and no stop gets to release one.
-/

namespace ProjectMu

open KeypadEventKind

variable {s s₀ : KeypadDriver} {made : List KeypadEventKind} {kind : KeypadEventKind}
variable {controller d e : ℕ}

/-- The event `e` is open, for the field `kind` of the device `d`. -/
def KeypadDriver.HasOpen (s : KeypadDriver) (d : ℕ) (kind : KeypadEventKind) (e : ℕ) : Prop :=
  ∃ event, s.events e = some event ∧ event.kind = kind ∧ event.context = d

structure Building (s₀ : KeypadDriver) (made : List KeypadEventKind) (s : KeypadDriver) :
    Prop where
  alive : (s.devices s₀.nextDevice).isSome
  made_iff : ∀ kind, (s.eventOf (some s₀.nextDevice) kind).isSome ↔ kind ∈ made
  opened : ∀ kind e, s.eventOf (some s₀.nextDevice) kind = some e →
    s₀.nextEvent ≤ e ∧ s.HasOpen s₀.nextDevice kind e
  only : ∀ e event, s.events e = some event → s₀.nextEvent ≤ e →
    s.eventOf (some s₀.nextDevice) event.kind = some e
  eventsOld : ∀ e, e < s₀.nextEvent → s.events e = s₀.events e
  eventsFresh : ∀ e, s.nextEvent ≤ e → s.events e = none
  nextEvent_le : s₀.nextEvent ≤ s.nextEvent
  devicesOld : ∀ d, d ≠ s₀.nextDevice → s.devices d = s₀.devices d
  nextDevice : s.nextDevice = s₀.nextDevice + 1
  keypadOpen : s.keypadOpen = s₀.keypadOpen
  textIn : s.textIn = s₀.textIn
  strayAccess : s.strayAccess = s₀.strayAccess

/-- What every sequence of safe calls keeps. An installed device has all its events, but for
the timer that a failed stop has closed. -/
structure KeypadDriver.Inv (s : KeypadDriver) : Prop where
  contexts : s.ContextsAlive
  access : s.strayAccess = false
  devicesFresh : ∀ d, s.nextDevice ≤ d → s.devices d = none
  eventsFresh : ∀ e, s.nextEvent ≤ e → s.events e = none
  installed : ∀ controller d, s.textIn controller = some d → (s.devices d).isSome
  installedEvents : ∀ controller d kind, s.textIn controller = some d → kind ≠ timerEvent →
    (s.eventOf (some d) kind).isSome
  opened : ∀ controller d kind e, s.textIn controller = some d →
    s.eventOf (some d) kind = some e → s.HasOpen d kind e

namespace KeypadDriver

@[simp] theorem modifyDevice_events (f : KeypadConsoleInDev → KeypadConsoleInDev) :
    (s.modifyDevice d f).events = s.events := rfl

theorem modifyDevice_devices_self (f : KeypadConsoleInDev → KeypadConsoleInDev) :
    (s.modifyDevice d f).devices d = (s.devices d).map f :=
  Function.update_self ..

theorem modifyDevice_devices_of_ne (f : KeypadConsoleInDev → KeypadConsoleInDev) {d' : ℕ}
    (hd : d' ≠ d) : (s.modifyDevice d f).devices d' = s.devices d' :=
  Function.update_of_ne hd ..

theorem modifyDevice_isSome (f : KeypadConsoleInDev → KeypadConsoleInDev) (d' : ℕ) :
    ((s.modifyDevice d f).devices d').isSome = (s.devices d').isSome := by
  by_cases hd : d' = d
  · rw [hd, modifyDevice_devices_self, Option.isSome_map]
  · rw [modifyDevice_devices_of_ne f hd]

theorem eventOf_modifyDevice {f : KeypadConsoleInDev → KeypadConsoleInDev}
    (hf : ∀ dev, (f dev).event = dev.event) (consoleIn : Option ℕ) :
    (s.modifyDevice d f).eventOf consoleIn kind = s.eventOf consoleIn kind := by
  cases consoleIn with
  | none => rfl
  | some d' =>
    by_cases hd : d' = d
    · subst hd
      simp only [eventOf, Option.bind_some, modifyDevice_devices_self, Option.bind_map,
        Function.comp_def, hf]
    · simp only [eventOf, Option.bind_some, modifyDevice_devices_of_ne f hd]

theorem eventOf_setEvent (h : (s.devices d).isSome) (kind' : KeypadEventKind) (v : Option ℕ) :
    (s.setEvent d kind v).eventOf (some d) kind' =
      if kind' = kind then v else s.eventOf (some d) kind' := by
  obtain ⟨dev, hdev⟩ := Option.isSome_iff_exists.mp h
  simp only [eventOf, setEvent, modifyDevice_devices_self, Option.bind_some, hdev,
    Option.map_some, Function.update_apply]

theorem eventOf_setEvent_of_ne {d' : ℕ} (hd : d' ≠ d) (kind' : KeypadEventKind) (v : Option ℕ) :
    (s.setEvent d kind v).eventOf (some d') kind' = s.eventOf (some d') kind' := by
  simp only [eventOf, setEvent, Option.bind_some, modifyDevice_devices_of_ne _ hd]

theorem createEvent_events (e : ℕ) :
    (s.createEvent kind d).events e =
      if e = s.nextEvent then some ⟨kind, d, false⟩ else s.events e :=
  Function.update_apply ..

theorem eventOf_createEvent (h : (s.devices d).isSome) (kind' : KeypadEventKind) :
    (s.createEvent kind d).eventOf (some d) kind' =
      if kind' = kind then some s.nextEvent else s.eventOf (some d) kind' :=
  eventOf_setEvent (s := { s with
    events := Function.update s.events s.nextEvent (some ⟨kind, d, false⟩)
    nextEvent := s.nextEvent + 1 }) h kind' _

theorem HasOpen.kind_eq {kind' : KeypadEventKind} {d' : ℕ} (h : s.HasOpen d kind e)
    (h' : s.HasOpen d' kind' e) : kind = kind' ∧ d = d' := by
  obtain ⟨event, hevent, rfl, rfl⟩ := h
  obtain ⟨event', hevent', rfl, rfl⟩ := h'
  rw [hevent, Option.some_inj] at hevent'
  rw [hevent']
  exact ⟨rfl, rfl⟩

theorem HasOpen.congr {s' : KeypadDriver} (h : s.HasOpen d kind e)
    (he : s'.events e = s.events e) : s'.HasOpen d kind e := by
  rwa [HasOpen, he]

end KeypadDriver

open KeypadDriver

theorem Building.allocateDevice (h : s₀.Inv) : Building s₀ [] s₀.allocateDevice := by
  have hnew : s₀.allocateDevice.devices s₀.nextDevice = some .zero := Function.update_self ..
  have hnone (kind) : s₀.allocateDevice.eventOf (some s₀.nextDevice) kind = none := by
    rw [eventOf, Option.bind_some, hnew]
    rfl
  refine ⟨by rw [hnew]; rfl, ?_, ?_, ?_, fun _ _ => rfl, h.eventsFresh, le_rfl, ?_, rfl, rfl, rfl,
    rfl⟩
  · intro kind
    rw [hnone]
    simp
  · intro kind e he
    rw [hnone] at he
    cases he
  · intro e event he hle
    have hfresh : s₀.allocateDevice.events e = none := h.eventsFresh e hle
    rw [hfresh] at he
    cases he
  · intro d hd
    exact Function.update_of_ne hd ..

theorem Building.createEvent (h : Building s₀ made s) (kind : KeypadEventKind)
    (hkind : kind ∉ made) :
    Building s₀ (kind :: made) (s.createEvent kind s₀.nextDevice) := by
  have hevent := @eventOf_createEvent _ kind _ h.alive
  have hold (e) (he : e < s.nextEvent) :
      (s.createEvent kind s₀.nextDevice).events e = s.events e := by
    rw [createEvent_events, if_neg he.ne]
  have hnew : (s.createEvent kind s₀.nextDevice).events s.nextEvent =
      some ⟨kind, s₀.nextDevice, false⟩ := by
    rw [createEvent_events, if_pos rfl]
  refine ⟨?_, ?_, ?_, ?_, ?_, ?_, ?_, ?_, h.nextDevice, h.keypadOpen, h.textIn, h.strayAccess⟩
  · exact (modifyDevice_isSome _ _).trans h.alive
  · intro kind'
    rw [hevent, List.mem_cons, ← h.made_iff]
    by_cases hk : kind' = kind
    · simp [hk]
    · simp [hk]
  · intro kind' e he
    rw [hevent] at he
    split at he
    · next hk =>
      obtain rfl := Option.some_inj.mp he
      exact ⟨h.nextEvent_le, _, hnew, hk.symm, rfl⟩
    · obtain ⟨hle, hopen⟩ := h.opened kind' e he
      have hlt : e < s.nextEvent := by
        by_contra hge
        obtain ⟨event, hsome, -⟩ := hopen
        rw [h.eventsFresh e (Nat.not_lt.mp hge)] at hsome
        cases hsome
      exact ⟨hle, hopen.congr (hold e hlt)⟩
  · intro e event he hle
    rw [hevent]
    by_cases hlast : e = s.nextEvent
    · rw [hlast, hnew, Option.some_inj] at he
      rw [← he, if_pos rfl, hlast]
    · rw [createEvent_events, if_neg hlast] at he
      have honly := h.only e event he hle
      have hne : event.kind ≠ kind := by
        intro hk
        apply hkind
        rw [← hk, ← h.made_iff, honly]
        rfl
      rw [if_neg hne, honly]
  · intro e he
    rw [hold e (he.trans_le h.nextEvent_le), h.eventsOld e he]
  · intro e he
    have hlt : s.nextEvent < e := he
    rw [createEvent_events, if_neg hlt.ne', h.eventsFresh e hlt.le]
  · exact h.nextEvent_le.trans (Nat.le_succ _)
  · intro d hd
    exact (modifyDevice_devices_of_ne _ hd).trans (h.devicesOld d hd)

theorem Building.modifyDevice (h : Building s₀ made s)
    {f : KeypadConsoleInDev → KeypadConsoleInDev} (hf : ∀ dev, (f dev).event = dev.event) :
    Building s₀ made (s.modifyDevice s₀.nextDevice f) := by
  refine ⟨(modifyDevice_isSome _ _).trans h.alive, ?_, ?_, ?_, h.eventsOld, h.eventsFresh,
    h.nextEvent_le, ?_, h.nextDevice, h.keypadOpen, h.textIn, h.strayAccess⟩
  · intro kind
    rw [eventOf_modifyDevice hf]
    exact h.made_iff kind
  · intro kind e he
    rw [eventOf_modifyDevice hf] at he
    exact h.opened kind e he
  · intro e event he hle
    rw [eventOf_modifyDevice hf]
    exact h.only e event he hle
  · intro d hd
    exact (modifyDevice_devices_of_ne _ hd).trans (h.devicesOld d hd)

theorem Building.setTimerPeriodic (h : Building s₀ made s) :
    Building s₀ made (s.setTimerPeriodic s₀.nextDevice) := by
  rw [KeypadDriver.setTimerPeriodic]
  split
  · exact h
  next t ht =>
  obtain ⟨htle, timer, htimer, htkind, htcontext⟩ := h.opened timerEvent t ht
  let s' : KeypadDriver := { s with
    events := Function.update s.events t
      ((s.events t).map fun event => { event with periodic := true }) }
  have hself : s'.events t = some { timer with periodic := true } := by
    refine (Function.update_self ..).trans ?_
    rw [htimer, Option.map_some]
  have hother (e) (he : e ≠ t) : s'.events e = s.events e := Function.update_of_ne he ..
  have hevent (kind) : s'.eventOf (some s₀.nextDevice) kind =
    s.eventOf (some s₀.nextDevice) kind := rfl
  refine ⟨h.alive, h.made_iff, ?_, ?_, ?_, ?_, h.nextEvent_le, h.devicesOld, h.nextDevice,
    h.keypadOpen, h.textIn, h.strayAccess⟩
  · intro kind e he
    obtain ⟨hle, hopen⟩ := h.opened kind e he
    refine ⟨hle, ?_⟩
    by_cases het : e = t
    · have htopen : s.HasOpen s₀.nextDevice timerEvent e :=
        ⟨timer, by rw [het, htimer], htkind, htcontext⟩
      obtain ⟨rfl, -⟩ := hopen.kind_eq htopen
      rw [het]
      exact ⟨_, hself, htkind, htcontext⟩
    · exact hopen.congr (hother e het)
  · intro e event he hle
    by_cases het : e = t
    · rw [het] at he
      have : some { timer with periodic := true } = some event := hself.symm.trans he
      obtain rfl := Option.some_inj.mp this
      rw [het]
      exact (congrArg _ htkind).trans ht
    · exact h.only e event ((hother e het).symm.trans he) hle
  · intro e he
    exact (hother e (by omega)).trans (h.eventsOld e he)
  · intro e he
    have het : e ≠ t := by
      rintro rfl
      rw [h.eventsFresh e he] at htimer
      cases htimer
    exact (hother e het).trans (h.eventsFresh e he)

theorem setUpConsoleIn_cases (o : StartOutcomes) (controller : ℕ) (h : Building s₀ [] s) :
    (o.createEvent waitForKey = false ∧
        setUpConsoleIn o controller s₀.nextDevice s = (.failed, s)) ∨
      (o.createEvent waitForKeyEx = false ∧
        setUpConsoleIn o controller s₀.nextDevice s =
          (.failed, s.createEvent waitForKey s₀.nextDevice)) ∨
      (¬(o.createEvent waitForKey = false ∨ o.createEvent waitForKeyEx = false ∨ o.Finishes) ∧
        ∃ made s', waitForKey ∈ made ∧ waitForKeyEx ∈ made ∧ Building s₀ made s' ∧
          setUpConsoleIn o controller s₀.nextDevice s = (.failed, s')) ∨
      (o.Finishes ∧ ∃ made s', (∀ kind, kind ∈ made) ∧ Building s₀ made s' ∧
        setUpConsoleIn o controller s₀.nextDevice s =
          (.success, s'.setTextIn controller (some s₀.nextDevice))) := by
  rw [setUpConsoleIn]
  by_cases h1 : o.createEvent waitForKey = false
  · exact .inl ⟨h1, if_pos h1⟩
  rw [if_neg h1]
  have b1 := h.createEvent waitForKey (by simp)
  by_cases h2 : o.createEvent waitForKeyEx = false
  · exact .inr (.inl ⟨h2, if_pos h2⟩)
  simp only [if_neg h2]
  refine .inr (.inr ?_)
  have b2 := b1.createEvent waitForKeyEx (by simp)
  by_cases h3 : o.createEvent timerEvent = false
  · exact .inl ⟨by simp [h1, h2, StartOutcomes.Finishes, h3], _, _, by simp, by simp, b2, if_pos h3⟩
  simp only [if_neg h3]
  have b3 := b2.createEvent timerEvent (by simp)
  by_cases h4 : o.setTimer = false
  · exact .inl ⟨by simp [h1, h2, StartOutcomes.Finishes, h4], _, _, by simp, by simp, b3, if_pos h4⟩
  simp only [if_neg h4]
  have b4 := b3.setTimerPeriodic
  by_cases h5 : o.createEvent keyNotifyProcessEvent = false
  · exact .inl ⟨by simp [h1, h2, StartOutcomes.Finishes, h5], _, _, by simp, by simp, b4, if_pos h5⟩
  simp only [if_neg h5]
  have b5 := b4.createEvent keyNotifyProcessEvent (by simp)
  by_cases h6 : o.reset = false
  · exact .inl ⟨by simp [h1, h2, StartOutcomes.Finishes, h6], _, _, by simp, by simp, b5, if_pos h6⟩
  simp only [if_neg h6]
  have b6 := b5.modifyDevice
    (f := fun dev => { dev with controllerNameTable := o.addUnicodeString2 }) fun _ => rfl
  by_cases h7 : o.installMultipleProtocolInterfaces = false
  · exact .inl ⟨by simp [h1, h2, StartOutcomes.Finishes, h7], _, _, by simp, by simp, b6, if_pos h7⟩
  · refine .inr ⟨?_, _, _, fun kind => by cases kind <;> simp, b6, if_neg h7⟩
    rw [Bool.not_eq_false] at h3 h4 h5 h6 h7
    exact ⟨h3, h4, h5, h6, h7⟩

theorem startCleanUp_events_of_some (h : s.eventOf (some d) waitForKey = some e) :
    (startCleanUp controller (some d) s).events = Function.update s.events e none := by
  have hfirst : s.firstEventOf (some d)
      [waitForKey, timerEvent, waitForKeyEx, keyNotifyProcessEvent] = some (waitForKey, e) := by
    rw [firstEventOf, List.findSome?_cons, h]
    rfl
  simp only [startCleanUp, hfirst]
  split <;> rfl

theorem startCleanUp_events_of_none (h : ∀ kind, s.eventOf (some d) kind = none) :
    (startCleanUp controller (some d) s).events = s.events := by
  have hfirst : s.firstEventOf (some d)
      [waitForKey, timerEvent, waitForKeyEx, keyNotifyProcessEvent] = none := by
    rw [firstEventOf, List.findSome?_eq_none_iff]
    intro kind _
    rw [h, Option.map_none]
  simp only [startCleanUp, hfirst]
  split <;> rfl

/-- The clean up frees a device that has no table of names yet, and nothing else. -/
theorem startCleanUp_devices (h : s.hasNameTable d = false) :
    (startCleanUp controller (some d) s).devices = Function.update s.devices d none := by
  have hfree (s' : KeypadDriver) (hs : s'.devices = s.devices) :
      (let s'' := s'.kbdFreeNotifyList (some d)
        if s''.hasNameTable d then s'' else s''.freeDevice d).devices =
        Function.update s.devices d none := by
    have htable : (s'.kbdFreeNotifyList (some d)).hasNameTable d = false := by
      have hself : (s'.kbdFreeNotifyList (some d)).devices d = (s'.devices d).map _ :=
        modifyDevice_devices_self _
      rw [hasNameTable, hself, hs, Option.any_map]
      exact h
    simp only [htable]
    change Function.update (Function.update s'.devices d _) d none = _
    rw [Function.update_idem, hs]
  rw [startCleanUp]
  split
  · exact hfree _ rfl
  · exact hfree _ rfl

theorem startCleanUp_frame :
    (startCleanUp controller (some d) s).textIn = s.textIn ∧
      (startCleanUp controller (some d) s).strayAccess = s.strayAccess ∧
      (startCleanUp controller (some d) s).nextDevice = s.nextDevice ∧
      (startCleanUp controller (some d) s).nextEvent = s.nextEvent ∧
      (startCleanUp controller (some d) s).keypadOpen controller = false := by
  rw [startCleanUp]
  split <;> split <;> exact ⟨rfl, rfl, rfl, rfl, Function.update_self ..⟩

end ProjectMu
