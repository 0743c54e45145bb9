import ProjectMu.PoolUse
import ProjectMu.SiPolicy

/-!
# The file systems of a boot

`setupSecureBoot` registers for file systems and signals its callback once for those already
there. The callback takes the new ones from the registration, one a pass, until none is left.
File systems are installed before, while and after it runs, and no order of this loses one or
handles one twice. A file system whose protocol or volume fails is not looked at again, and the
buffer that its handle came in is never freed.
-/

namespace ProjectMu.SecureBootHandler

open ByteCodec PoolUse

/-- An error of the handle database other than that there is no new handle. -/
abbrev TransientError := { e : EfiError // e ≠ .notFound }

/-- What the firmware answers in one pass through the loop of the callback. -/
structure LoopAnswers where
  locateHandleBuffer : Option TransientError
  handleProtocol : Option EfiError
  openVolume : Option EfiError
  siPolicy : SiPolicyBoot

/-- The handles that the registration has not returned yet, whether the event is signalled, the
running callback with its `SfsBuffer`, the volumes, the pool and the handles taken so far, with
the answers in processing them or `none` for those that were skipped. -/
structure SfsState (H : Type*) where
  registered : Bool
  pending : List H
  signalled : Bool
  callback : Option (Option ℕ)
  volumes : H → FsVolume
  pool : List (PoolEvent ℕ)
  handled : List (H × Option SiPolicyBoot)

inductive SfsEvent (H : Type*)
  | installed (handle : H)
  | callback
  | pass (answers : LoopAnswers)

section Handler

variable {H : Type*} [DecidableEq H] (sha256HashAll : List Byte → Option (BitVec 256))
  (secureBoot clearsBuffer : Bool)

/-- `clearsBuffer` tells whether `LocateHandleBuffer` sets the buffer to `NULL` when it fails. -/
def failedBuffer (sfsBuffer : Option ℕ) : Option ℕ := if clearsBuffer then none else sfsBuffer

/-- Behind the loop the buffer is freed if there is one. -/
def leaveLoop (sfsBuffer : Option ℕ) (s : SfsState H) : SfsState H :=
  { s with
    callback := none
    pool := match sfsBuffer with
      | none => s.pool
      | some buffer => .free buffer :: s.pool }

/-- A pass with the handle that was located, in the buffer of its number. -/
def handlePass (answers : LoopAnswers) (handle : H) (rest : List H) (s : SfsState H) :
    SfsState H :=
  let buffer := s.handled.length
  let skipped : SfsState H :=
    { s with
      pending := rest
      callback := some (some buffer)
      pool := .allocate buffer :: s.pool
      handled := s.handled ++ [(handle, none)] }
  match answers.handleProtocol with
  | some _ => skipped
  | none =>
    match answers.openVolume with
    | some _ => skipped
    | none =>
      { s with
        pending := rest
        callback := some (some buffer)
        volumes := Function.update s.volumes handle
          (processFileSystem sha256HashAll secureBoot answers.siPolicy (s.volumes handle))
        pool := .free buffer :: .allocate buffer :: s.pool
        handled := s.handled ++ [(handle, some answers.siPolicy)] }

/-- One pass through the loop of `FileSystemCallback`. -/
def callbackPass (answers : LoopAnswers) (sfsBuffer : Option ℕ) (s : SfsState H) : SfsState H :=
  match answers.locateHandleBuffer with
  | some _ => { s with callback := some (failedBuffer clearsBuffer sfsBuffer) }
  | none =>
    match s.pending with
    | [] => leaveLoop (failedBuffer clearsBuffer sfsBuffer) s
    | handle :: rest => handlePass sha256HashAll secureBoot answers handle rest s

/-- The event is signalled by each new file system, and the callback starts when it is idle. -/
def sfsStep (s : SfsState H) : SfsEvent H → SfsState H
  | .installed handle =>
    if s.registered then { s with pending := s.pending ++ [handle], signalled := true } else s
  | .callback =>
    if s.signalled && s.callback.isNone then { s with signalled := false, callback := some none }
    else s
  | .pass answers =>
    match s.callback with
    | none => s
    | some sfsBuffer => callbackPass sha256HashAll secureBoot clearsBuffer answers sfsBuffer s

def sfsRun (s : SfsState H) (events : List (SfsEvent H)) : SfsState H :=
  events.foldl (sfsStep sha256HashAll secureBoot clearsBuffer) s

/-- The statuses are those of `SetSecureBootConfig`, `CreateEvent` and `RegisterProtocolNotify`. A
registration starts with the file systems that are already there. -/
def setupSecureBoot (setConfig createEvent registerNotify : Option EfiError) (existing : List H)
    (volumes : H → FsVolume) : Except EfiError Unit × SfsState H :=
  let unregistered : SfsState H := ⟨false, [], false, none, volumes, [], []⟩
  match if secureBoot then setConfig else none with
  | some e => (.error e, unregistered)
  | none =>
    match createEvent with
    | some e => (.error e, unregistered)
    | none =>
      match registerNotify with
      | some e => (.error e, unregistered)
      | none =>
        (.ok (), { unregistered with registered := true, pending := existing, signalled := true })

/-- The volumes after some handles were processed or skipped. -/
def handledVolumes (volumes : H → FsVolume) (handled : List (H × Option SiPolicyBoot)) :
    H → FsVolume :=
  handled.foldl (fun volumes entry =>
    match entry.2 with
    | none => volumes
    | some boot => Function.update volumes entry.1
        (processFileSystem sha256HashAll secureBoot boot (volumes entry.1))) volumes

end Handler

/-- The file systems that are installed in a run. -/
def installedIn {H : Type*} : List (SfsEvent H) → List H
  | [] => []
  | .installed handle :: events => handle :: installedIn events
  | _ :: events => installedIn events

theorem installedIn_cons {H : Type*} (event : SfsEvent H) (events : List (SfsEvent H)) :
    installedIn (event :: events) = installedIn [event] ++ installedIn events := by
  cases event <;> rfl

/-- Nothing is running and nothing is waiting to run. -/
def SfsState.Quiet {H : Type*} (s : SfsState H) : Prop := s.callback = none ∧ s.signalled = false

/-- Every installed handle was taken, in order, or is still pending, and then the callback runs
or will run. -/
structure Accounted {H : Type*} (s : SfsState H) (installed : List H) : Prop where
  order : s.handled.map Prod.fst ++ s.pending = installed
  wakes : s.Quiet → s.pending = []

variable {H : Type*} [DecidableEq H] {sha256HashAll : List Byte → Option (BitVec 256)}
  {secureBoot clearsBuffer : Bool} {s : SfsState H} {installed : List H}

def skippedState (handle : H) (rest : List H) (s : SfsState H) : SfsState H :=
  { s with
    pending := rest
    callback := some (some s.handled.length)
    pool := .allocate s.handled.length :: s.pool
    handled := s.handled ++ [(handle, none)] }

def processedState (sha256HashAll : List Byte → Option (BitVec 256)) (secureBoot : Bool)
    (boot : SiPolicyBoot) (handle : H) (rest : List H) (s : SfsState H) : SfsState H :=
  { s with
    pending := rest
    callback := some (some s.handled.length)
    volumes := Function.update s.volumes handle
      (processFileSystem sha256HashAll secureBoot boot (s.volumes handle))
    pool := .free s.handled.length :: .allocate s.handled.length :: s.pool
    handled := s.handled ++ [(handle, some boot)] }

/-- All that a step can do. -/
inductive SfsMove (sha256HashAll : List Byte → Option (BitVec 256)) (secureBoot clearsBuffer : Bool)
    (s : SfsState H) : SfsEvent H → SfsState H → Prop
  | stays {event : SfsEvent H} (hnone : s.registered = true → installedIn [event] = []) :
      SfsMove sha256HashAll secureBoot clearsBuffer s event s
  | install (handle : H) (hregistered : s.registered = true) :
      SfsMove sha256HashAll secureBoot clearsBuffer s (.installed handle)
        { s with pending := s.pending ++ [handle], signalled := true }
  | start (hsignalled : s.signalled = true) (hidle : s.callback = none) :
      SfsMove sha256HashAll secureBoot clearsBuffer s .callback
        { s with signalled := false, callback := some none }
  | retry {answers : LoopAnswers} {sfsBuffer : Option ℕ} (hrunning : s.callback = some sfsBuffer) :
      SfsMove sha256HashAll secureBoot clearsBuffer s (.pass answers)
        { s with callback := some (failedBuffer clearsBuffer sfsBuffer) }
  | leave {answers : LoopAnswers} {sfsBuffer : Option ℕ} (hrunning : s.callback = some sfsBuffer)
      (hpending : s.pending = []) :
      SfsMove sha256HashAll secureBoot clearsBuffer s (.pass answers)
        (leaveLoop (failedBuffer clearsBuffer sfsBuffer) s)
  | skip {answers : LoopAnswers} {sfsBuffer : Option ℕ} {handle : H} {rest : List H}
      (hrunning : s.callback = some sfsBuffer) (hpending : s.pending = handle :: rest) :
      SfsMove sha256HashAll secureBoot clearsBuffer s (.pass answers) (skippedState handle rest s)
  | process {answers : LoopAnswers} {sfsBuffer : Option ℕ} {handle : H} {rest : List H}
      (hrunning : s.callback = some sfsBuffer) (hpending : s.pending = handle :: rest) :
      SfsMove sha256HashAll secureBoot clearsBuffer s (.pass answers)
        (processedState sha256HashAll secureBoot answers.siPolicy handle rest s)

theorem sfsMove_handlePass {answers : LoopAnswers} {sfsBuffer : Option ℕ} {handle : H}
    {rest : List H} (hrunning : s.callback = some sfsBuffer)
    (hpending : s.pending = handle :: rest) :
    SfsMove sha256HashAll secureBoot clearsBuffer s (.pass answers)
      (handlePass sha256HashAll secureBoot answers handle rest s) := by
  unfold handlePass
  cases answers.handleProtocol with
  | some e => exact .skip hrunning hpending
  | none =>
    cases answers.openVolume with
    | some e => exact .skip hrunning hpending
    | none => exact .process hrunning hpending

theorem sfsMove_sfsStep (s : SfsState H) (event : SfsEvent H) :
    SfsMove sha256HashAll secureBoot clearsBuffer s event
      (sfsStep sha256HashAll secureBoot clearsBuffer s event) := by
  cases event with
  | installed handle =>
    by_cases hregistered : s.registered = true
    · have hstep : sfsStep sha256HashAll secureBoot clearsBuffer s (.installed handle) =
          { s with pending := s.pending ++ [handle], signalled := true } := if_pos hregistered
      rw [hstep]
      exact .install handle hregistered
    · have hstep : sfsStep sha256HashAll secureBoot clearsBuffer s (.installed handle) = s :=
        if_neg hregistered
      rw [hstep]
      exact .stays fun h => absurd h hregistered
  | callback =>
    by_cases hready : (s.signalled && s.callback.isNone) = true
    · have hstep : sfsStep sha256HashAll secureBoot clearsBuffer s .callback =
          { s with signalled := false, callback := some none } := if_pos hready
      rw [Bool.and_eq_true, Option.isNone_iff_eq_none] at hready
      rw [hstep]
      exact .start hready.1 hready.2
    · have hstep : sfsStep sha256HashAll secureBoot clearsBuffer s .callback = s := if_neg hready
      rw [hstep]
      exact .stays fun _ => rfl
  | pass answers =>
    have hstep : sfsStep sha256HashAll secureBoot clearsBuffer s (.pass answers) =
        match s.callback with
        | none => s
        | some sfsBuffer =>
          callbackPass sha256HashAll secureBoot clearsBuffer answers sfsBuffer s := rfl
    rw [hstep]
    cases hrunning : s.callback with
    | none => exact .stays fun _ => rfl
    | some sfsBuffer =>
      dsimp only
      unfold callbackPass
      cases answers.locateHandleBuffer with
      | some e => exact .retry hrunning
      | none =>
        cases hpending : s.pending with
        | nil => exact .leave hrunning hpending
        | cons handle rest => exact sfsMove_handlePass hrunning hpending

/-- No step loses a handle or takes one twice. -/
theorem accounted_move {event : SfsEvent H} {s' : SfsState H} (h : Accounted s installed)
    (hregistered : s.registered = true)
    (hmove : SfsMove sha256HashAll secureBoot clearsBuffer s event s') :
    Accounted s' (installed ++ installedIn [event]) ∧ s'.registered = true := by
  cases hmove with
  | stays hnone =>
    rw [hnone hregistered, List.append_nil]
    exact ⟨h, hregistered⟩
  | install handle _ =>
    refine ⟨⟨?_, fun hquiet => by cases hquiet.2⟩, hregistered⟩
    change s.handled.map Prod.fst ++ (s.pending ++ [handle]) = installed ++ [handle]
    rw [← List.append_assoc, h.order]
  | start _ _ =>
    exact ⟨⟨by rw [← h.order]; simp [installedIn], fun hquiet => by cases hquiet.1⟩, hregistered⟩
  | retry _ =>
    exact ⟨⟨by rw [← h.order]; simp [installedIn], fun hquiet => by cases hquiet.1⟩, hregistered⟩
  | leave _ hpending =>
    exact ⟨⟨by rw [← h.order]; simp [installedIn, leaveLoop], fun _ => hpending⟩, hregistered⟩
  | skip _ hpending =>
    refine ⟨⟨?_, fun hquiet => by cases hquiet.1⟩, hregistered⟩
    rw [← h.order, hpending]
    simp [installedIn, skippedState]
  | process _ hpending =>
    refine ⟨⟨?_, fun hquiet => by cases hquiet.1⟩, hregistered⟩
    rw [← h.order, hpending]
    simp [installedIn, processedState]

theorem accounted_run (h : Accounted s installed) (hregistered : s.registered = true)
    (events : List (SfsEvent H)) :
    Accounted (sfsRun sha256HashAll secureBoot clearsBuffer s events)
      (installed ++ installedIn events) := by
  induction events generalizing s installed with
  | nil =>
    rw [installedIn, List.append_nil]
    exact h
  | cons event events ih =>
    obtain ⟨hstep, hregistered'⟩ := accounted_move h hregistered
      (@sfsMove_sfsStep _ _ sha256HashAll secureBoot clearsBuffer s event)
    rw [installedIn_cons, ← List.append_assoc]
    exact ih hstep hregistered'

theorem handledVolumes_concat (volumes : H → FsVolume)
    (handled : List (H × Option SiPolicyBoot)) (entry : H × Option SiPolicyBoot) :
    handledVolumes sha256HashAll secureBoot volumes (handled ++ [entry]) =
      match entry.2 with
      | none => handledVolumes sha256HashAll secureBoot volumes handled
      | some boot =>
        Function.update (handledVolumes sha256HashAll secureBoot volumes handled) entry.1
          (processFileSystem sha256HashAll secureBoot boot
            (handledVolumes sha256HashAll secureBoot volumes handled entry.1)) :=
  List.foldl_concat ..

theorem volumes_move {volumes : H → FsVolume} {event : SfsEvent H} {s' : SfsState H}
    (h : s.volumes = handledVolumes sha256HashAll secureBoot volumes s.handled)
    (hmove : SfsMove sha256HashAll secureBoot clearsBuffer s event s') :
    s'.volumes = handledVolumes sha256HashAll secureBoot volumes s'.handled := by
  cases hmove with
  | stays _ => exact h
  | install handle _ => exact h
  | start _ _ => exact h
  | retry _ => exact h
  | leave _ _ => exact h
  | skip _ _ =>
    rw [skippedState, handledVolumes_concat]
    exact h
  | process _ _ =>
    rw [processedState, handledVolumes_concat]
    dsimp only
    rw [← h]

/-- The volumes are what the handled ones make of them. -/
theorem volumes_run {volumes : H → FsVolume}
    (h : s.volumes = handledVolumes sha256HashAll secureBoot volumes s.handled)
    (events : List (SfsEvent H)) :
    (sfsRun sha256HashAll secureBoot clearsBuffer s events).volumes =
      handledVolumes sha256HashAll secureBoot volumes
        (sfsRun sha256HashAll secureBoot clearsBuffer s events).handled := by
  induction events generalizing s with
  | nil => exact h
  | cons event events ih => exact ih (volumes_move h (sfsMove_sfsStep s event))

/-- A handle that occurs once has its volume processed once, or not at all. -/
theorem handledVolumes_apply {volumes : H → FsVolume} {handled : List (H × Option SiPolicyBoot)}
    (hnodup : (handled.map Prod.fst).Nodup) :
    (∀ handle outcome, (handle, outcome) ∈ handled →
      handledVolumes sha256HashAll secureBoot volumes handled handle =
        match outcome with
        | none => volumes handle
        | some boot => processFileSystem sha256HashAll secureBoot boot (volumes handle)) ∧
    ∀ handle, handle ∉ handled.map Prod.fst →
      handledVolumes sha256HashAll secureBoot volumes handled handle = volumes handle := by
  induction handled using List.reverseRecOn with
  | nil => exact ⟨fun handle outcome hmem => (List.not_mem_nil hmem).elim, fun _ _ => rfl⟩
  | append_singleton handled entry ih =>
    rw [List.map_append, List.nodup_append] at hnodup
    obtain ⟨hfirst, -, hapart⟩ := hnodup
    obtain ⟨hin, hout⟩ := ih hfirst
    have hnew : entry.1 ∉ handled.map Prod.fst := fun hmem =>
      hapart entry.1 hmem entry.1 (by simp) rfl
    have hother (handle : H) (hne : handle ≠ entry.1) :
        handledVolumes sha256HashAll secureBoot volumes (handled ++ [entry]) handle =
          handledVolumes sha256HashAll secureBoot volumes handled handle := by
      rw [handledVolumes_concat]
      cases entry.2 with
      | none => rfl
      | some boot => exact Function.update_of_ne hne ..
    refine ⟨fun handle outcome hmem => ?_, fun handle hmem => ?_⟩
    · rcases List.mem_append.mp hmem with hmem | hmem
      · have hne : handle ≠ entry.1 := fun heq =>
          hnew (heq ▸ List.mem_map_of_mem (f := Prod.fst) hmem)
        rw [hother handle hne]
        exact hin handle outcome hmem
      · obtain rfl := List.mem_singleton.mp hmem
        rw [handledVolumes_concat]
        cases outcome with
        | none => exact hout handle hnew
        | some boot =>
          dsimp only
          rw [Function.update_self, hout handle hnew]
    · rw [List.map_append, List.mem_append, not_or] at hmem
      rw [hother handle (fun heq => hmem.2 (by simp [heq]))]
      exact hout handle hmem.1

/-- Without the registration nothing ever happens. -/
theorem sfsRun_unregistered (hregistered : s.registered = false) (hidle : s.Quiet)
    (events : List (SfsEvent H)) :
    sfsRun sha256HashAll secureBoot clearsBuffer s events = s := by
  induction events with
  | nil => rfl
  | cons event events ih =>
    have hstep : sfsStep sha256HashAll secureBoot clearsBuffer s event = s := by
      cases event with
      | installed handle => exact if_neg (by rw [hregistered]; exact Bool.false_ne_true)
      | callback => exact if_neg (by rw [hidle.2]; exact Bool.false_ne_true)
      | pass answers =>
        rw [sfsStep, hidle.1]
    change sfsRun sha256HashAll secureBoot clearsBuffer
      (sfsStep sha256HashAll secureBoot clearsBuffer s event) events = s
    rw [hstep]
    exact ih

/-- The state that the boot goes on in. -/
theorem setupSecureBoot_cases {K : Type*} (secureBoot : Bool)
    (setConfig createEvent registerNotify : Option EfiError) (existing : List K)
    (volumes : K → FsVolume) :
    setupSecureBoot secureBoot setConfig createEvent registerNotify existing volumes =
        (.ok (), ⟨true, existing, true, none, volumes, [], []⟩) ∨
      ∃ e, setupSecureBoot secureBoot setConfig createEvent registerNotify existing volumes =
        (.error e, ⟨false, [], false, none, volumes, [], []⟩) := by
  unfold setupSecureBoot
  cases (if secureBoot then setConfig else none) with
  | some e => exact .inr ⟨e, rfl⟩
  | none =>
    cases createEvent with
    | some e => exact .inr ⟨e, rfl⟩
    | none =>
      cases registerNotify with
      | some e => exact .inr ⟨e, rfl⟩
      | none => exact .inl rfl

/-- In every order of installing, signalling and running, the registered callback takes each file
system once, in the order in which they appeared, and once nothing runs or is waiting to run it has
taken them all. Each volume is processed once, unless its handle was skipped, and without the
registration none is touched. -/
theorem sfsRun_handled (sha256HashAll : List Byte → Option (BitVec 256))
    (secureBoot clearsBuffer : Bool) (setConfig createEvent registerNotify : Option EfiError)
    (existing : List H) (volumes : H → FsVolume) (events : List (SfsEvent H)) :
    let setup := setupSecureBoot secureBoot setConfig createEvent registerNotify existing volumes
    let s := sfsRun sha256HashAll secureBoot clearsBuffer setup.2 events
    (setup.1 = .ok () →
      s.handled.map Prod.fst ++ s.pending = existing ++ installedIn events ∧
      (s.Quiet → s.handled.map Prod.fst = existing ++ installedIn events) ∧
      ((existing ++ installedIn events).Nodup → ∀ handle outcome, (handle, outcome) ∈ s.handled →
        s.volumes handle =
          match outcome with
          | none => volumes handle
          | some boot => processFileSystem sha256HashAll secureBoot boot (volumes handle))) ∧
    (setup.1 ≠ .ok () → s.volumes = volumes) := by
  intro setup s
  rcases setupSecureBoot_cases secureBoot setConfig createEvent registerNotify existing volumes with
    hok | ⟨e, herror⟩
  · refine ⟨fun _ => ?_, fun h => absurd (congrArg Prod.fst hok) h⟩
    have hstart : Accounted setup.2 existing := by
      change Accounted (setupSecureBoot _ _ _ _ _ _).2 existing
      rw [hok]
      exact ⟨rfl, fun hquiet => by cases hquiet.2⟩
    have hregistered : setup.2.registered = true := by
      change (setupSecureBoot _ _ _ _ _ _).2.registered = true
      rw [hok]
    have hvolumes : setup.2.volumes =
        handledVolumes sha256HashAll secureBoot volumes setup.2.handled := by
      change (setupSecureBoot _ _ _ _ _ _).2.volumes = handledVolumes _ _ _
        (setupSecureBoot _ _ _ _ _ _).2.handled
      rw [hok]
      rfl
    have hrun := @accounted_run _ _ sha256HashAll secureBoot clearsBuffer _ _ hstart hregistered
      events
    have hfinal := @volumes_run _ _ sha256HashAll secureBoot clearsBuffer _ _ hvolumes events
    refine ⟨hrun.order, fun hquiet => ?_, fun hnodup handle outcome hmem => ?_⟩
    · rw [← hrun.order, hrun.wakes hquiet, List.append_nil]
    · rw [← hrun.order, List.nodup_append] at hnodup
      change (sfsRun _ _ _ _ _).volumes handle = _
      rw [hfinal]
      exact (handledVolumes_apply hnodup.1).1 handle outcome hmem
  · refine ⟨fun h => ?_, fun _ => ?_⟩
    · have hstatus : (.error e : Except EfiError Unit) = .ok () :=
        (congrArg Prod.fst herror).symm.trans h
      cases hstatus
    · change (sfsRun _ _ _ (setupSecureBoot _ _ _ _ _ _).2 events).volumes = volumes
      rw [herror, sfsRun_unregistered rfl ⟨rfl, rfl⟩]

/-- The buffers that are not freed are those of the handles that were skipped. -/
structure PoolExact {K : Type*} (s : SfsState K) : Prop where
  releases : Releases s.pool
  live_iff : ∀ k, Live k s.pool ↔ ∃ handle, s.handled[k]? = some (handle, none)

/-- The last handle counts as skipped if it was. -/
theorem skipped_concat {K : Type*} (handled : List (K × Option SiPolicyBoot))
    (entry : K × Option SiPolicyBoot) (k : ℕ) :
    (∃ handle, (handled ++ [entry])[k]? = some (handle, none)) ↔
      k = handled.length ∧ entry.2 = none ∨ ∃ handle, handled[k]? = some (handle, none) := by
  rcases Nat.lt_trichotomy k handled.length with hlt | rfl | hgt
  · rw [List.getElem?_append_left hlt]
    exact (or_iff_right fun h => hlt.ne h.1).symm
  · rw [List.getElem?_concat_length, List.getElem?_eq_none le_rfl]
    obtain ⟨handle, outcome⟩ := entry
    simp
  · rw [List.getElem?_eq_none (by rw [List.length_append, List.length_singleton]; omega),
      List.getElem?_eq_none hgt.le]
    simp [hgt.ne']

theorem poolExact_move {event : SfsEvent H} {s' : SfsState H} (h : PoolExact s)
    (hmove : SfsMove sha256HashAll secureBoot true s event s') : PoolExact s' := by
  have hbound : ¬∃ handle, s.handled[s.handled.length]? = some (handle, none) := by
    rw [List.getElem?_eq_none le_rfl]
    rintro ⟨handle, hget⟩
    cases hget
  cases hmove with
  | stays _ => exact h
  | install handle _ => exact ⟨h.releases, h.live_iff⟩
  | start _ _ => exact ⟨h.releases, h.live_iff⟩
  | retry _ => exact ⟨h.releases, h.live_iff⟩
  | leave _ _ => exact ⟨h.releases, h.live_iff⟩
  | @skip answers sfsBuffer handle rest _ _ =>
    refine ⟨h.releases, fun k => ?_⟩
    rw [skippedState, skipped_concat, live_allocate, h.live_iff]
    exact or_congr_left (and_iff_left rfl).symm
  | @process answers sfsBuffer handle rest _ _ =>
    refine ⟨⟨.inl rfl, h.releases⟩, fun k => ?_⟩
    rw [processedState, skipped_concat, live_free, live_allocate, h.live_iff]
    constructor
    · rintro ⟨hne, hor⟩
      exact .inr (hor.resolve_left hne)
    · rintro (⟨-, hnone⟩ | hskipped)
      · cases hnone
      · exact ⟨fun heq => hbound (heq ▸ hskipped), .inr hskipped⟩

theorem poolExact_run (h : PoolExact s) (events : List (SfsEvent H)) :
    PoolExact (sfsRun sha256HashAll secureBoot true s events) := by
  induction events generalizing s with
  | nil => exact h
  | cons event events ih => exact ih (poolExact_move h (sfsMove_sfsStep s event))

/-- A pass in which the firmware reports no error. -/
def cleanPass (siPolicy : SiPolicyBoot) : LoopAnswers := ⟨none, none, none, siPolicy⟩

theorem sfsStep_cleanPass {siPolicy : SiPolicyBoot} {sfsBuffer : Option ℕ} {handle : H}
    {rest : List H} (hrunning : s.callback = some sfsBuffer)
    (hpending : s.pending = handle :: rest) :
    sfsStep sha256HashAll secureBoot clearsBuffer s (.pass (cleanPass siPolicy)) =
      processedState sha256HashAll secureBoot siPolicy handle rest s := by
  rw [sfsStep, hrunning]
  dsimp only
  rw [callbackPass, hpending]
  rfl

theorem sfsRun_cons (event : SfsEvent H) (events : List (SfsEvent H)) :
    sfsRun sha256HashAll secureBoot clearsBuffer s (event :: events) =
      sfsRun sha256HashAll secureBoot clearsBuffer
        (sfsStep sha256HashAll secureBoot clearsBuffer s event) events := rfl

/-- Clean passes take all handles, and the last buffer that was freed stays in `SfsBuffer`. -/
theorem sfsRun_cleanPasses {siPolicy : SiPolicyBoot} {sfsBuffer : Option ℕ} {handle : H}
    {rest : List H} (hrunning : s.callback = some sfsBuffer)
    (hpending : s.pending = handle :: rest) :
    ∃ s' buffer pool, sfsRun sha256HashAll secureBoot clearsBuffer s
        (List.replicate (rest.length + 1) (.pass (cleanPass siPolicy))) = s' ∧
      s'.callback = some (some buffer) ∧ s'.pending = [] ∧ s'.pool = .free buffer :: pool := by
  induction rest generalizing s sfsBuffer handle with
  | nil =>
    rw [List.length_nil, List.replicate_one, sfsRun_cons, sfsStep_cleanPass hrunning hpending]
    exact ⟨_, _, _, rfl, rfl, rfl, rfl⟩
  | cons next rest ih =>
    rw [List.length_cons, List.replicate_succ, sfsRun_cons, sfsStep_cleanPass hrunning hpending]
    exact ih rfl rfl

/-- The pool is used properly in every boot exactly if a failing `LocateHandleBuffer` clears the
buffer. Then the buffers that are left are those of the handles that were skipped. -/
theorem sfsRun_pool [Inhabited H] (sha256HashAll : List Byte → Option (BitVec 256))
    (secureBoot clearsBuffer : Bool) (siPolicy : SiPolicyBoot) (existing : List H)
    (volumes : H → FsVolume) :
    let start := (setupSecureBoot secureBoot none none none existing volumes).2
    ((∀ events, Releases (sfsRun sha256HashAll secureBoot clearsBuffer start events).pool) ↔
      clearsBuffer = true) ∧
    (clearsBuffer = true → ∀ events k,
      Live k (sfsRun sha256HashAll secureBoot clearsBuffer start events).pool ↔
        ∃ handle, (sfsRun sha256HashAll secureBoot clearsBuffer start events).handled[k]? =
          some (handle, none)) := by
  intro start
  have hexact : clearsBuffer = true → ∀ events,
      PoolExact (sfsRun sha256HashAll secureBoot clearsBuffer start events) := by
    rintro rfl events
    have hfresh : PoolExact start := by
      have hstart : start = ⟨true, existing, true, none, volumes, [], []⟩ := by
        change (setupSecureBoot _ _ _ _ _ _).2 = _
        cases secureBoot <;> rfl
      rw [hstart]
      exact ⟨trivial, fun k => iff_of_false id (by simp)⟩
    exact poolExact_run hfresh events
  refine ⟨⟨fun hall => ?_, fun hclears events => (hexact hclears events).releases⟩,
    fun hclears events k => (hexact hclears events).live_iff k⟩
  cases clearsBuffer with
  | true => rfl
  | false =>
    -- a handle is there when the callback starts
    set handle : H := default
    set running := sfsRun sha256HashAll secureBoot false start [.installed handle, .callback] with
      hrunningDef
    have hstart : start = ⟨true, existing, true, none, volumes, [], []⟩ := by
      change (setupSecureBoot _ _ _ _ _ _).2 = _
      cases secureBoot <;> rfl
    have hcallback : running.callback = some none := by
      rw [hrunningDef, hstart]
      rfl
    obtain ⟨first, rest, hpending⟩ : ∃ first rest, running.pending = first :: rest := by
      rw [hrunningDef, hstart]
      exact List.exists_cons_of_ne_nil (List.append_ne_nil_of_right_ne_nil existing (by simp))
    obtain ⟨drained, buffer, pool, hdrainedRun, hlast, hdrained, hpool⟩ := @sfsRun_cleanPasses _ _
      sha256HashAll secureBoot false running siPolicy _ _ _ hcallback hpending
    have hrun : sfsRun sha256HashAll secureBoot false start ([.installed handle, .callback] ++
        (List.replicate (rest.length + 1) (.pass (cleanPass siPolicy)) ++
          [.pass (cleanPass siPolicy)])) =
        sfsStep sha256HashAll secureBoot false drained (.pass (cleanPass siPolicy)) := by
      rw [sfsRun, List.foldl_append, List.foldl_append]
      exact congrArg (sfsStep sha256HashAll secureBoot false · (.pass (cleanPass siPolicy)))
        hdrainedRun
    have hleave : (sfsStep sha256HashAll secureBoot false drained
        (.pass (cleanPass siPolicy))).pool = .free buffer :: .free buffer :: pool := by
      rw [sfsStep, hlast]
      dsimp only
      rw [callbackPass, hdrained, ← hpool]
      rfl
    have hreleases := hall ([.installed handle, .callback] ++
      (List.replicate (rest.length + 1) (.pass (cleanPass siPolicy)) ++
        [.pass (cleanPass siPolicy)]))
    rw [hrun, hleave, releases_free, live_free] at hreleases
    exact absurd rfl hreleases.1.1

end ProjectMu.SecureBootHandler
