import ProjectMu.KeypadLifecycleRun

/-!
# The bind and unbind sequences that are safe

A call that meets its condition keeps the invariant and leaves nothing behind; a call that
does not leaves an event of a freed or unused device, or touches a device that was never
allocated. Along a run this decides for every call whether it is safe.
-/

namespace ProjectMu

open KeypadEventKind KeypadDriver

variable {s s' s₀ : KeypadDriver} {made : List KeypadEventKind}
variable {controller d e : ℕ} {o : StartOutcomes} {p : StopOutcomes}

theorem KeypadDriver.Inv.setOpen (h : s.Inv) (isOpen : Bool) :
    (s.setOpen controller isOpen).Inv :=
  ⟨h.contexts, h.access, h.devicesFresh, h.eventsFresh, h.installed, h.installedEvents, h.opened⟩

/-- The same devices and events exist, with the same interfaces. -/
structure Restored (s s' : KeypadDriver) : Prop where
  devices : s'.devices = s.devices
  events : s'.events = s.events
  textIn : s'.textIn = s.textIn
  strayAccess : s'.strayAccess = s.strayAccess
  nextDevice_le : s.nextDevice ≤ s'.nextDevice
  nextEvent_le : s.nextEvent ≤ s'.nextEvent

theorem Restored.inv (h : Restored s s') (hs : s.Inv) : s'.Inv := by
  have hevent (consoleIn kind) : s'.eventOf consoleIn kind = s.eventOf consoleIn kind := by
    rw [eventOf, eventOf, h.devices]
  refine ⟨?_, h.strayAccess.trans hs.access, ?_, ?_, ?_, ?_, ?_⟩
  · rw [ContextsAlive, h.events, h.devices]
    exact hs.contexts
  · intro d hd
    rw [h.devices]
    exact hs.devicesFresh d (h.nextDevice_le.trans hd)
  · intro e he
    rw [h.events]
    exact hs.eventsFresh e (h.nextEvent_le.trans he)
  · rw [h.textIn, h.devices]
    exact hs.installed
  · intro controller d kind htext
    rw [h.textIn] at htext
    rw [hevent]
    exact hs.installedEvents controller d kind htext
  · intro controller d kind e htext he
    rw [h.textIn] at htext
    rw [hevent] at he
    rw [HasOpen, h.events]
    exact hs.opened controller d kind e htext he

theorem Restored.leavesNothing (h : Restored s s') (hopen : s'.keypadOpen controller = false) :
    LeavesNothing controller s s' := by
  refine ⟨?_, ?_, ?_⟩
  · rw [h.events]
    exact fun _ he => he
  · rw [h.devices]
    exact fun _ hd => hd
  · rw [hopen]
    exact fun h => absurd h Bool.false_ne_true

theorem KeypadDriver.Inv.ne_nextDevice (hs : s.Inv) (hd : (s.devices d).isSome) :
    d ≠ s.nextDevice := by
  rintro rfl
  rw [hs.devicesFresh _ le_rfl] at hd
  cases hd

theorem KeypadDriver.Inv.lt_nextEvent (hs : s.Inv) {event : KeypadEvent}
    (he : s.events e = some event) : e < s.nextEvent := by
  by_contra hge
  rw [hs.eventsFresh e (Nat.not_lt.mp hge)] at he
  cases he

/-- All but the events that were made are as before. -/
theorem Building.events_eq (h : Building s₀ made s) (hs : s₀.Inv)
    (hother : ∀ kind ∈ made, s.eventOf (some s₀.nextDevice) kind ≠ some e) :
    s.events e = s₀.events e := by
  rcases Nat.lt_or_ge e s₀.nextEvent with hlt | hge
  · exact h.eventsOld e hlt
  · rw [hs.eventsFresh e hge]
    by_contra hsome
    obtain ⟨event, he⟩ := Option.ne_none_iff_exists'.mp hsome
    have honly := h.only e event he hge
    have hmade : event.kind ∈ made := by
      rw [← h.made_iff, honly]
      rfl
    exact hother event.kind hmade honly

/-- A device with no event but the first, and no table of names, is cleaned up completely. -/
theorem Building.restored (h : Building s₀ made s) (hs : s₀.Inv)
    (hmade : made = [] ∨ made = [waitForKey]) (htable : s.hasNameTable s₀.nextDevice = false) :
    Restored s₀ (startCleanUp controller (some s₀.nextDevice) s) := by
  obtain ⟨htext, haccess, hdevice, hevent, -⟩ :=
    @startCleanUp_frame s controller s₀.nextDevice
  refine ⟨?_, ?_, htext.trans h.textIn, haccess.trans h.strayAccess, ?_, ?_⟩
  · rw [startCleanUp_devices htable]
    funext d
    by_cases hd : d = s₀.nextDevice
    · rw [hd, Function.update_self, hs.devicesFresh _ le_rfl]
    · rw [Function.update_of_ne hd, h.devicesOld d hd]
  · funext e
    rcases hmade with rfl | rfl
    · have hnone (kind) : s.eventOf (some s₀.nextDevice) kind = none := by
        rw [← Option.not_isSome_iff_eq_none, h.made_iff]
        exact List.not_mem_nil
      rw [startCleanUp_events_of_none hnone]
      exact h.events_eq hs fun _ hkind => absurd hkind List.not_mem_nil
    · obtain ⟨w, hw⟩ := Option.isSome_iff_exists.mp
        ((h.made_iff waitForKey).mpr List.mem_cons_self)
      rw [startCleanUp_events_of_some hw]
      by_cases hew : e = w
      · rw [hew, Function.update_self, hs.eventsFresh w (h.opened _ w hw).1]
      · rw [Function.update_of_ne hew]
        refine h.events_eq hs fun kind hkind he => hew ?_
        rw [List.mem_singleton.mp hkind, hw, Option.some_inj] at he
        exact he.symm
  · rw [hdevice, h.nextDevice]
    exact Nat.le_succ _
  · rw [hevent]
    exact h.nextEvent_le

/-- With a second event made, the clean up leaves that one open. -/
theorem Building.not_leavesNothing (h : Building s₀ made s) (hs : s₀.Inv)
    (hkey : waitForKey ∈ made) (hkeyEx : waitForKeyEx ∈ made) :
    ¬LeavesNothing controller s₀ (startCleanUp controller (some s₀.nextDevice) s) := by
  intro hleaves
  obtain ⟨w, hw⟩ := Option.isSome_iff_exists.mp ((h.made_iff _).mpr hkey)
  obtain ⟨x, hx⟩ := Option.isSome_iff_exists.mp ((h.made_iff _).mpr hkeyEx)
  obtain ⟨hle, hxopen⟩ := h.opened _ x hx
  have hne : x ≠ w := by
    rintro rfl
    have := (hxopen.kind_eq (h.opened _ x hw).2).1
    cases this
  obtain ⟨event, hevent, -⟩ := hxopen
  have hleft := hleaves.events x (by
    rw [startCleanUp_events_of_some hw, Function.update_of_ne hne, hevent]
    rfl)
  rw [hs.eventsFresh x hle] at hleft
  cases hleft

/-- An installed device keeps the invariant, if it has all its events. -/
theorem Building.inv_setTextIn (h : Building s₀ made s) (hs : s₀.Inv)
    (hmade : ∀ kind, kind ∈ made) :
    (s.setTextIn controller (some s₀.nextDevice)).Inv := by
  have htext (c d) (hc : (s.setTextIn controller (some s₀.nextDevice)).textIn c = some d) :
      d = s₀.nextDevice ∨ s₀.textIn c = some d := by
    change Function.update s.textIn controller (some s₀.nextDevice) c = some d at hc
    by_cases hcc : c = controller
    · rw [hcc, Function.update_self, Option.some_inj] at hc
      exact .inl hc.symm
    · rw [Function.update_of_ne hcc, h.textIn] at hc
      exact .inr hc
  have heventOf (d) (hd : d ≠ s₀.nextDevice) (kind) :
      s.eventOf (some d) kind = s₀.eventOf (some d) kind := by
    rw [eventOf, eventOf, Option.bind_some, Option.bind_some, h.devicesOld d hd]
  refine ⟨?_, h.strayAccess.trans hs.access, ?_, h.eventsFresh, ?_, ?_, ?_⟩
  · intro e event he
    rcases Nat.lt_or_ge e s₀.nextEvent with hlt | hge
    · have hold : s₀.events e = some event := (h.eventsOld e hlt).symm.trans he
      have halive := hs.contexts e event hold
      change (s.devices event.context).isSome
      rwa [h.devicesOld _ (hs.ne_nextDevice halive)]
    · obtain ⟨-, event', he', -, hcontext⟩ := h.opened _ e (h.only e event he hge)
      obtain rfl := Option.some_inj.mp (he'.symm.trans he)
      rw [hcontext]
      exact h.alive
  · intro d hd
    have hlt : s₀.nextDevice + 1 ≤ d := h.nextDevice ▸ hd
    exact (h.devicesOld d (by omega)).trans (hs.devicesFresh d (by omega))
  · intro c d hc
    rcases htext c d hc with rfl | hold
    · exact h.alive
    · have halive := hs.installed c d hold
      exact (h.devicesOld d (hs.ne_nextDevice halive)).symm ▸ halive
  · intro c d kind hc hkind
    rcases htext c d hc with rfl | hold
    · exact (h.made_iff kind).mpr (hmade kind)
    · exact (heventOf d (hs.ne_nextDevice (hs.installed c d hold)) kind).symm ▸
        hs.installedEvents c d kind hold hkind
  · intro c d kind e hc he
    rcases htext c d hc with rfl | hold
    · exact (h.opened kind e he).2
    · have hopen := hs.opened c d kind e hold
        ((heventOf d (hs.ne_nextDevice (hs.installed c d hold)) kind).symm.trans he)
      obtain ⟨event, hevent, -⟩ := id hopen
      exact hopen.congr (h.eventsOld e (hs.lt_nextEvent hevent))

theorem hasNameTable_allocateDevice : s.allocateDevice.hasNameTable s.nextDevice = false := by
  have hnew : s.allocateDevice.devices s.nextDevice = some .zero := Function.update_self ..
  rw [hasNameTable, hnew]
  rfl

theorem hasNameTable_createEvent (kind : KeypadEventKind) (h : s.hasNameTable d = false) :
    (s.createEvent kind d).hasNameTable d = false := by
  have hself : (s.createEvent kind d).devices d = (s.devices d).map _ :=
    modifyDevice_devices_self _
  rw [hasNameTable, hself, Option.any_map]
  exact h

/-- A start that opens the protocol and gets a device: only setting up can still fail. -/
theorem keypadControllerDriverStart_eq
    (hfirst : ¬(o.openProtocol = false ∨ s.keypadOpen controller = true))
    (halloc : o.allocateZeroPool = true) :
    keypadControllerDriverStart o controller s =
      match setUpConsoleIn o controller (s.setOpen controller true).nextDevice
          (s.setOpen controller true).allocateDevice with
      | (.failed, s') => (.failed, startCleanUp controller (some s.nextDevice) s')
      | (.success, s') => (.success, s') := by
  rw [keypadControllerDriverStart, if_neg hfirst]
  exact if_neg (by simp [halloc])

theorem keypadControllerDriverStart_of_meets (hs : s.Inv) (hmeets : o.Meets controller s) :
    (keypadControllerDriverStart o controller s).2.Inv ∧
      ((keypadControllerDriverStart o controller s).1 = .failed →
        LeavesNothing controller s (keypadControllerDriverStart o controller s).2) := by
  by_cases hfirst : o.openProtocol = false ∨ s.keypadOpen controller = true
  · rw [keypadControllerDriverStart, if_pos hfirst]
    exact ⟨hs, fun _ => ⟨fun _ h => h, fun _ h => h, fun h => h⟩⟩
  obtain ⟨halloc, hrest⟩ : o.allocateZeroPool = true ∧ _ := by
    rcases hmeets with h | h | h
    · exact absurd (.inl h) hfirst
    · exact absurd (.inr h) hfirst
    · exact h
  have hopen : (s.setOpen controller true).Inv := hs.setOpen true
  have hbuild := Building.allocateDevice hopen
  have hcleaned (s') (hrestored : Restored (s.setOpen controller true)
      (startCleanUp controller (some s.nextDevice) s')) :
      (startCleanUp controller (some s.nextDevice) s').Inv ∧
        LeavesNothing controller s (startCleanUp controller (some s.nextDevice) s') := by
    obtain ⟨hevents, hdevices, -⟩ := hrestored.leavesNothing startCleanUp_frame.2.2.2.2
    refine ⟨hrestored.inv hopen, hevents, hdevices, ?_⟩
    rw [startCleanUp_frame.2.2.2.2]
    exact fun h => absurd h Bool.false_ne_true
  rw [keypadControllerDriverStart_eq hfirst halloc]
  rcases setUpConsoleIn_cases o controller hbuild with
    ⟨-, heq⟩ | ⟨-, heq⟩ | ⟨hlate, -⟩ | ⟨-, made, s', hmade, hall, heq⟩
  · rw [heq]
    have hdone := hcleaned _ (hbuild.restored hopen (.inl rfl) hasNameTable_allocateDevice)
    exact ⟨hdone.1, fun _ => hdone.2⟩
  · rw [heq]
    have hone := hbuild.createEvent waitForKey List.not_mem_nil
    have hdone := hcleaned _ (hone.restored hopen (.inr rfl)
      (hasNameTable_createEvent _ hasNameTable_allocateDevice))
    exact ⟨hdone.1, fun _ => hdone.2⟩
  · exact absurd hrest hlate
  · rw [heq]
    exact ⟨hall.inv_setTextIn hopen hmade, fun h => by cases h⟩

/-- A start that fails otherwise touches a device that does not exist, or leaves an event. -/
theorem keypadControllerDriverStart_of_not_meets (hs : s.Inv) (hmeets : ¬o.Meets controller s) :
    ¬CallSafe s (.start o controller) := by
  intro hsafe
  simp only [StartOutcomes.Meets, not_or] at hmeets
  obtain ⟨hprotocol, hclosed, hrest⟩ := hmeets
  have hopen : (s.setOpen controller true).Inv := hs.setOpen true
  by_cases halloc : o.allocateZeroPool = false
  · have hstart : keypadControllerDriverStart o controller s =
        (.failed, startCleanUp controller none (s.setOpen controller true)) := by
      rw [keypadControllerDriverStart, if_neg (not_or.mpr ⟨hprotocol, hclosed⟩)]
      exact if_pos halloc
    have haccess := hsafe.access
    rw [KeypadDriver.call, hstart] at haccess
    cases haccess
  · have hlate := fun h => hrest ⟨Bool.eq_true_of_not_eq_false halloc, h⟩
    have hbuild := Building.allocateDevice hopen
    rcases setUpConsoleIn_cases o controller hbuild with
      ⟨h, -⟩ | ⟨h, -⟩ | ⟨-, made, s', hkey, hkeyEx, hall, heq⟩ | ⟨h, -⟩
    · exact hlate (.inl h)
    · exact hlate (.inr (.inl h))
    · have hstart : keypadControllerDriverStart o controller s =
          (.failed, startCleanUp controller (some s.nextDevice) s') := by
        rw [keypadControllerDriverStart_eq (not_or.mpr ⟨hprotocol, hclosed⟩)
          (Bool.eq_true_of_not_eq_false halloc), heq]
      have hreleases := hsafe.releases
      rw [CallReleases, hstart] at hreleases
      obtain ⟨hevents, hdevices, hclose⟩ := hreleases rfl
      exact hall.not_leavesNothing hopen hkey hkeyEx ⟨hevents, hdevices, fun _ =>
        Function.update_self ..⟩
    · exact hlate (.inr (.inr h))

/-- Of all events of devices only the timer of one device is gone. -/
theorem eventOf_closeTimer (halive : (s.devices d).isSome) (t d' : ℕ) (kind : KeypadEventKind) :
    ((s.closeEvent t).setEvent d timerEvent none).eventOf (some d') kind =
      if d' = d ∧ kind = timerEvent then none else s.eventOf (some d') kind := by
  by_cases hd : d' = d
  · rw [hd, @eventOf_setEvent (s.closeEvent t) timerEvent d halive kind none]
    simp only [true_and]
    rfl
  · rw [@eventOf_setEvent_of_ne (s.closeEvent t) timerEvent d d' hd kind none,
      if_neg fun h => hd h.1]
    rfl

/-- Closing the timer of an installed device keeps the invariant. -/
theorem KeypadDriver.Inv.stopTimer (hs : s.Inv) (hd : s.textIn controller = some d) :
    (stopTimer d s).Inv := by
  rw [ProjectMu.stopTimer]
  split
  next t ht =>
    have htopen := hs.opened controller d timerEvent t hd ht
    have halive := hs.installed controller d hd
    have hisSome (d') : (((s.closeEvent t).setEvent d timerEvent none).devices d').isSome =
        (s.devices d').isSome := modifyDevice_isSome _ d'
    have hevents (e) (hne : e ≠ t) :
        ((s.closeEvent t).setEvent d timerEvent none).events e = s.events e :=
      Function.update_of_ne hne ..
    have hclosed : ((s.closeEvent t).setEvent d timerEvent none).events t = none :=
      Function.update_self ..
    refine ⟨?_, hs.access, ?_, ?_, ?_, ?_, ?_⟩
    · intro e event he
      have hne : e ≠ t := by
        rintro rfl
        rw [hclosed] at he
        cases he
      rw [hisSome]
      exact hs.contexts e event ((hevents e hne).symm.trans he)
    · intro d' hle
      rw [← Option.not_isSome_iff_eq_none, hisSome, hs.devicesFresh d' hle]
      exact Bool.false_ne_true
    · intro e hle
      by_cases hne : e = t
      · rw [hne, hclosed]
      · exact (hevents e hne).trans (hs.eventsFresh e hle)
    · intro c d' hc
      rw [hisSome]
      exact hs.installed c d' hc
    · intro c d' kind hc hkind
      rw [eventOf_closeTimer halive, if_neg fun h => hkind h.2]
      exact hs.installedEvents c d' kind hc hkind
    · intro c d' kind e hc he
      rw [eventOf_closeTimer halive] at he
      split at he
      · cases he
      next hother =>
        have hopen := hs.opened c d' kind e hc he
        refine hopen.congr (hevents e ?_)
        rintro rfl
        obtain ⟨hkind, hdevice⟩ := hopen.kind_eq htopen
        exact hother ⟨hdevice, hkind⟩
  · exact hs

theorem stopTimer_textIn : (stopTimer d s).textIn = s.textIn := by
  rw [stopTimer]
  split <;> rfl

/-- A stop that releases a device leaves its second event open. -/
theorem stopRelease_not_released (hs : s.Inv) (hd : s.textIn controller = some d) :
    ¬Released controller d (stopRelease controller d s) := by
  intro hreleased
  have hkey (kind : KeypadEventKind) (hkind : kind ≠ timerEvent) :
      ∃ e, s.eventOf (some d) kind = some e ∧ s.HasOpen d kind e := by
    obtain ⟨e, he⟩ := Option.isSome_iff_exists.mp (hs.installedEvents controller d kind hd hkind)
    exact ⟨e, he, hs.opened controller d kind e hd he⟩
  obtain ⟨w, hw, hwopen⟩ := hkey waitForKey (by simp)
  obtain ⟨x, -, hxopen⟩ := hkey waitForKeyEx (by simp)
  have hne : x ≠ w := by
    rintro rfl
    have := (hxopen.kind_eq hwopen).1
    cases this
  have hfirst : ((s.setTextIn controller none).setOpen controller false).firstEventOf (some d)
      [waitForKey, waitForKeyEx, keyNotifyProcessEvent] = some (waitForKey, w) := by
    have hw' : ((s.setTextIn controller none).setOpen controller false).eventOf (some d)
      waitForKey = some w := hw
    rw [firstEventOf, List.findSome?_cons, hw']
    rfl
  have hevents : (stopRelease controller d s).events = Function.update s.events w none := by
    rw [stopRelease]
    simp only [hfirst]
    rfl
  obtain ⟨event, hevent, -, hcontext⟩ := hxopen
  refine hreleased.events x event ?_ hcontext
  rw [hevents, Function.update_of_ne hne, hevent]

theorem keypadControllerDriverStop_of_meets (hs : s.Inv) (hmeets : p.Meets controller s) :
    (keypadControllerDriverStop p controller s).2.Inv ∧
      (keypadControllerDriverStop p controller s).1 = .failed := by
  rw [keypadControllerDriverStop]
  split
  · exact ⟨hs, rfl⟩
  next d hd =>
  by_cases hopen : p.openTextIn = false
  · rw [if_pos hopen]
    exact ⟨hs, rfl⟩
  by_cases htest : p.testTextInEx = false
  · rw [if_neg hopen, if_pos htest]
    exact ⟨hs, rfl⟩
  rw [if_neg hopen, if_neg htest]
  have huninstall : p.uninstallMultipleProtocolInterfaces = false := by
    rcases hmeets with h | h | h | h
    · rw [hd] at h
      cases h
    · exact absurd h hopen
    · exact absurd h htest
    · exact h
  rw [if_pos huninstall]
  exact ⟨hs.stopTimer hd, rfl⟩

theorem keypadControllerDriverStop_of_not_meets (hs : s.Inv) (hmeets : ¬p.Meets controller s) :
    ¬CallSafe s (.stop p controller) := by
  intro hsafe
  simp only [StopOutcomes.Meets, not_or] at hmeets
  obtain ⟨htext, hopen, htest, huninstall⟩ := hmeets
  obtain ⟨d, hd⟩ := Option.ne_none_iff_exists'.mp htext
  have hstop : keypadControllerDriverStop p controller s =
      (.success, stopRelease controller d (stopTimer d s)) := by
    rw [keypadControllerDriverStop, hd]
    simp only [if_neg hopen, if_neg htest, if_neg huninstall]
  have hreleases := hsafe.releases
  rw [CallReleases, hstop] at hreleases
  have hd' : (stopTimer d s).textIn controller = some d := by rw [stopTimer_textIn, hd]
  exact stopRelease_not_released (hs.stopTimer hd) hd' (hreleases rfl d hd)

theorem KeypadDriver.Inv.call_iff (hs : s.Inv) (call : BindingCall) :
    (CallSafe s call ↔ call.Meets s) ∧ (call.Meets s → (s.call call).2.Inv) := by
  cases call with
  | start o controller =>
    refine ⟨⟨fun hsafe => ?_, fun hmeets => ?_⟩, fun hmeets => ?_⟩
    · by_contra hnot
      exact keypadControllerDriverStart_of_not_meets hs hnot hsafe
    · obtain ⟨hinv, hleaves⟩ := keypadControllerDriverStart_of_meets hs hmeets
      exact ⟨hinv.contexts, hinv.access, hleaves⟩
    · exact (keypadControllerDriverStart_of_meets hs hmeets).1
  | stop p controller =>
    refine ⟨⟨fun hsafe => ?_, fun hmeets => ?_⟩, fun hmeets => ?_⟩
    · by_contra hnot
      exact keypadControllerDriverStop_of_not_meets hs hnot hsafe
    · obtain ⟨hinv, hfailed⟩ := keypadControllerDriverStop_of_meets hs hmeets
      refine ⟨hinv.contexts, hinv.access, fun hsuccess => ?_⟩
      rw [hfailed] at hsuccess
      cases hsuccess
    · exact (keypadControllerDriverStop_of_meets hs hmeets).1

theorem KeypadDriver.Inv.runSafe_iff (hs : s.Inv) (calls : List BindingCall) :
    RunSafe s calls ↔ RunMeets s calls := by
  induction calls generalizing s with
  | nil => exact ⟨fun _ => trivial, fun _ => ⟨hs.contexts, hs.access⟩⟩
  | cons call calls ih =>
    obtain ⟨hiff, hnext⟩ := hs.call_iff call
    constructor
    · rintro ⟨hsafe, hrest⟩
      have hmeets := hiff.mp hsafe
      exact ⟨hmeets, (ih (hnext hmeets)).mp hrest⟩
    · rintro ⟨hmeets, hrest⟩
      exact ⟨hiff.mpr hmeets, (ih (hnext hmeets)).mpr hrest⟩

theorem KeypadDriver.initial_inv : KeypadDriver.initial.Inv :=
  ⟨nofun, rfl, fun _ _ => rfl, fun _ _ => rfl, nofun, nofun, nofun⟩

/-- From a driver with nothing bound, a sequence of starts and stops is safe in every state it
reaches exactly if each call meets its condition. -/
theorem keypadDriver_runSafe_iff (calls : List BindingCall) :
    RunSafe KeypadDriver.initial calls ↔ RunMeets KeypadDriver.initial calls :=
  KeypadDriver.initial_inv.runSafe_iff calls

/-- The timer event cannot be created, with every other call successful. -/
def timerFails : StartOutcomes :=
  ⟨true, true, fun kind => kind ≠ timerEvent, true, true, true, true⟩

/-- The two events made by then: the clean up closes one of them and frees their device. -/
theorem keypadDriver_timerFails : ¬∀ calls, RunSafe KeypadDriver.initial calls := by
  intro h
  have hsafe := (h [.start timerFails 0]).1.contexts
  have halive : (none : Option KeypadConsoleInDev).isSome := hsafe 1 ⟨waitForKeyEx, 0, false⟩ rfl
  cases halive

end ProjectMu
