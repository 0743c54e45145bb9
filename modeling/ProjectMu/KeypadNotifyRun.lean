import ProjectMu.KeypadNotify

/-!
# What a run of keystrokes and handler passes notifies

The calls made so far, followed by the calls for what is still queued, are the calls for all
entries the pushed keystrokes made. A keystroke with `n` matching registrations makes `n`
entries of `n` calls each, so the handler ends with every registration called once exactly
when no pushed keystroke matches two registrations, and none that is dropped matches one.
-/

namespace ProjectMu

open RingQueue

namespace KeypadTextIn

variable {δ : Type} {s s' : KeypadTextIn EfiKeyQueue δ} {keyData : EfiKeyData}
  {keys queued : List EfiKeyData}

/-- The calls for every entry that the keystrokes make in the queue. -/
def entryCalls (s : KeypadTextIn EfiKeyQueue δ) (keys : List EfiKeyData) :
    List (KeypadNotifyNode × EfiKeyData) :=
  (keys.flatMap s.entriesFor).flatMap (notificationsFor s.notifyList)

/-- A device reached from `s` by pushing `keys`, with `queued` still to be notified. -/
structure Notifying (s : KeypadTextIn EfiKeyQueue δ) (keys : List EfiKeyData)
    (s' : KeypadTextIn EfiKeyQueue δ) (queued : List EfiKeyData) : Prop where
  same : SameRegistrations s s'
  queue : Represents s'.efiKeyQueueForNotify queued
  woken : queued ≠ [] → s'.Woken
  calls : s'.calls ++ queued.flatMap (notificationsFor s.notifyList) = s.entryCalls keys

theorem SameRegistrations.drops_iff (h : SameRegistrations s s') :
    s'.Drops keyData ↔ s.Drops keyData := by
  rw [Drops, Drops, h.isSupportPartialKey]

theorem entryCalls_append :
    s.entryCalls (keys ++ [keyData]) =
      s.entryCalls keys ++ (s.entriesFor keyData).flatMap (notificationsFor s.notifyList) := by
  simp only [entryCalls, List.flatMap_append, List.flatMap_singleton]

theorem Notifying.push (h : Notifying s keys s' queued)
    (hfit : ¬s'.Drops keyData → QueueFits keyData s'.notifyList s') :
    Notifying s (keys ++ [keyData]) (s'.act (.push keyData)) (queued ++ s.entriesFor keyData) := by
  by_cases hdrop : s.Drops keyData
  · have hact : s'.act (.push keyData) = s' := if_pos (h.same.drops_iff.mpr hdrop)
    have hentries : s.entriesFor keyData = [] := if_pos hdrop
    rw [hact, hentries, List.append_nil]
    refine ⟨h.same, h.queue, h.woken, ?_⟩
    rw [h.calls, entryCalls_append, hentries, List.flatMap_nil, List.append_nil]
  · have hdrop' : ¬s'.Drops keyData := fun hd => hdrop (h.same.drops_iff.mp hd)
    have hentries : s.entriesFor keyData =
        List.replicate (matchCount s.notifyList keyData) keyData := if_neg hdrop
    have hrep := queueForNotify_represents s'.notifyList h.queue (hfit hdrop')
    have hpushed := pushed hdrop'
    have hqueue : (s'.act (.push keyData)).efiKeyQueueForNotify =
        (queueForNotify keyData s'.notifyList s').efiKeyQueueForNotify := by
      rw [act, hpushed.notify, queueForNotify_eq]
    refine ⟨⟨hpushed.notifyList.trans h.same.notifyList,
      hpushed.partialKey.trans h.same.isSupportPartialKey⟩, ?_, ?_, ?_⟩
    · rwa [hqueue, hentries, ← h.same.notifyList]
    · intro hne
      rw [Woken, act, hpushed.signaled, hpushed.running]
      cases hmatching : matching keyData s'.notifyList with
      | nil =>
        have hnone : matchCount s.notifyList keyData = 0 := by
          rw [matchCount, ← h.same.notifyList, hmatching, List.length_nil]
        rw [hentries, hnone, List.replicate_zero, List.append_nil] at hne
        rw [List.isEmpty_nil, Bool.not_true, Bool.or_false]
        exact h.woken hne
      | cons node nodes =>
        rw [List.isEmpty_cons, Bool.not_false, Bool.or_true]
        exact .inl rfl
    · rw [act, hpushed.calls, entryCalls_append, ← h.calls, List.flatMap_append, List.append_assoc]

theorem Notifying.process (h : Notifying s keys s' queued) :
    Notifying s keys (s'.act .process) queued.tail := by
  obtain ⟨hsame, hqueue, hcalls⟩ := dispatchNotify_same s'
  have hrep := h.queue
  rw [← hqueue] at hrep
  cases queued with
  | nil =>
    by_cases hrunning : (dispatchNotify s').notifyRunning = true
    · obtain ⟨hsame', hrep', hcalls', -⟩ := keyNotifyProcessHandler_nil hrunning hrep
      refine ⟨(h.same.trans hsame).trans hsame', hrep', fun hne => absurd rfl hne, ?_⟩
      rw [act, hcalls', hcalls]
      exact h.calls
    · have hact : s'.act .process = dispatchNotify s' := if_pos (Bool.eq_false_iff.mpr hrunning)
      rw [hact]
      refine ⟨h.same.trans hsame, hrep, fun hne => absurd rfl hne, ?_⟩
      rw [hcalls]
      exact h.calls
  | cons keyData queued =>
    have hrunning := dispatchNotify_running (h.woken (List.cons_ne_nil _ _))
    obtain ⟨hsame', hrep', hcalls', hstill⟩ := keyNotifyProcessHandler_cons hrunning hrep
    refine ⟨(h.same.trans hsame).trans hsame', hrep', fun _ => .inr hstill, ?_⟩
    rw [act, hcalls', hcalls, hsame.notifyList, h.same.notifyList, ← h.calls, List.flatMap_cons,
      List.append_assoc, List.tail_cons]

theorem Notifying.actAll (actions : List KeypadAction) (h : Notifying s keys s' queued)
    (hfit : NeverOverflows s' actions) :
    ∃ left, Notifying s (keys ++ pushedKeys actions) (s'.actAll actions) left := by
  induction actions generalizing keys s' queued with
  | nil =>
    rw [pushedKeys, List.append_nil]
    exact ⟨queued, h⟩
  | cons action actions ih =>
    cases action with
    | push keyData =>
      have hrun := ih (h.push hfit.1) hfit.2
      rwa [List.append_assoc, List.singleton_append] at hrun
    | process => exact ih h.process hfit

theorem keyNotifyProcess_done {n : ℕ} (h : s.notifyRunning = false) :
    keyNotifyProcess n s = s := by
  cases n with
  | zero => rfl
  | succ n => exact if_pos h

theorem keyNotifyProcess_calls (n : ℕ) (hrunning : s.notifyRunning = true)
    (h : Represents s.efiKeyQueueForNotify queued) (hn : queued.length ≤ n) :
    (keyNotifyProcess n s).calls = s.calls ++ queued.flatMap (notificationsFor s.notifyList) := by
  induction n generalizing s queued with
  | zero =>
    obtain rfl : queued = [] := List.eq_nil_of_length_eq_zero (Nat.le_zero.mp hn)
    rw [keyNotifyProcess, List.flatMap_nil, List.append_nil]
  | succ n ih =>
    rw [keyNotifyProcess, hrunning, if_neg (by decide)]
    cases queued with
    | nil =>
      obtain ⟨-, -, hcalls, hdone⟩ := keyNotifyProcessHandler_nil hrunning h
      rw [keyNotifyProcess_done hdone, hcalls, List.flatMap_nil, List.append_nil]
    | cons keyData queued =>
      obtain ⟨hsame, hrep, hcalls, hstill⟩ := keyNotifyProcessHandler_cons hrunning h
      rw [ih hstill hrep (Nat.le_of_succ_le_succ hn), hcalls, hsame.notifyList,
        List.flatMap_cons, List.append_assoc]

theorem Notifying.notifyAll_calls (h : Notifying s keys s' queued) :
    (notifyAll s').calls = s.entryCalls keys := by
  obtain ⟨hsame, hqueue, hcalls⟩ := dispatchNotify_same s'
  have hrep := h.queue
  rw [← hqueue] at hrep
  rw [← h.calls, notifyAll]
  by_cases hrunning : (dispatchNotify s').notifyRunning = true
  · rw [keyNotifyProcess_calls keypadEfiKeyMaxCount hrunning hrep hrep.length_lt.le, hcalls,
      hsame.notifyList, h.same.notifyList]
  · have hnil : queued = [] := by
      by_contra hne
      exact hrunning (dispatchNotify_running (h.woken hne))
    rw [keyNotifyProcess_done (Bool.eq_false_iff.mpr hrunning), hcalls, hnil, List.flatMap_nil,
      List.append_nil]

theorem notifyAll_calls {actions : List KeypadAction}
    (hstart : Represents s.efiKeyQueueForNotify []) (hcalls : s.calls = [])
    (hfit : NeverOverflows s actions) :
    (notifyAll (s.actAll actions)).calls = s.entryCalls (pushedKeys actions) := by
  have hinit : Notifying s [] s [] :=
    ⟨⟨rfl, rfl⟩, hstart, fun hne => absurd rfl hne, by rw [hcalls]; rfl⟩
  obtain ⟨left, hleft⟩ := hinit.actAll actions hfit
  exact hleft.notifyAll_calls

theorem mem_notificationsFor {notifyList : List KeypadNotifyNode}
    {p : KeypadNotifyNode × EfiKeyData}
    (hp : p ∈ notificationsFor notifyList keyData) : p.2 = keyData := by
  obtain ⟨_, _, rfl⟩ := List.mem_map.mp hp
  rfl

theorem length_notificationsFor (notifyList : List KeypadNotifyNode) :
    (notificationsFor notifyList keyData).length = matchCount notifyList keyData := by
  rw [notificationsFor, List.length_map, matchCount]

/-- How many calls for one keystroke a list of calls holds, keystroke by keystroke. -/
theorem countP_flatMap_key {g : EfiKeyData → List (KeypadNotifyNode × EfiKeyData)}
    (hg : ∀ k, ∀ p ∈ g k, p.2 = k) (keys : List EfiKeyData) :
    (keys.flatMap g).countP (fun p => p.2 = keyData) =
      keys.count keyData * (g keyData).length := by
  induction keys with
  | nil => rw [List.flatMap_nil, List.countP_nil, List.count_nil, Nat.zero_mul]
  | cons k keys ih =>
    rw [List.flatMap_cons, List.countP_append, ih]
    by_cases hk : k = keyData
    · have hall : (g k).countP (fun p => p.2 = keyData) = (g k).length :=
        List.countP_eq_length.mpr fun p hp => decide_eq_true ((hg k p hp).trans hk)
      rw [hall, hk, List.count_cons_self, Nat.add_mul, Nat.one_mul, Nat.add_comm]
    · have hnone : (g k).countP (fun p => p.2 = keyData) = 0 :=
        List.countP_eq_zero.mpr fun p hp hp' => hk ((hg k p hp).symm.trans (of_decide_eq_true hp'))
      rw [hnone, List.count_cons_of_ne hk, Nat.zero_add]

/-- The calls one keystroke makes. -/
def callsFor (s : KeypadTextIn EfiKeyQueue δ) (keyData : EfiKeyData) :
    List (KeypadNotifyNode × EfiKeyData) :=
  (s.entriesFor keyData).flatMap (notificationsFor s.notifyList)

theorem entryCalls_eq : s.entryCalls keys = keys.flatMap s.callsFor := List.flatMap_assoc

theorem mem_callsFor {p : KeypadNotifyNode × EfiKeyData} (hp : p ∈ s.callsFor keyData) :
    p.2 = keyData := by
  obtain ⟨entry, hentry, hp⟩ := List.mem_flatMap.mp hp
  have hkey : entry = keyData := by
    rw [entriesFor] at hentry
    split at hentry
    · exact absurd hentry List.not_mem_nil
    · exact List.eq_of_mem_replicate hentry
  exact (mem_notificationsFor hp).trans hkey

theorem length_callsFor :
    (s.callsFor keyData).length =
      if s.Drops keyData then 0
      else matchCount s.notifyList keyData * matchCount s.notifyList keyData := by
  rw [callsFor, entriesFor]
  split
  · rfl
  · rw [List.length_flatMap, List.map_replicate, List.sum_replicate, length_notificationsFor,
      smul_eq_mul]

/-- The keystroke makes one call for each registration it matches. -/
def NotifiesOnce (s : KeypadTextIn EfiKeyQueue δ) (keyData : EfiKeyData) : Prop :=
  matchCount s.notifyList keyData ≤ 1 ∧
    (s.Drops keyData → matchCount s.notifyList keyData = 0)

instance : Decidable (s.NotifiesOnce keyData) := inferInstanceAs (Decidable (_ ∧ _))

theorem callsFor_eq (h : s.NotifiesOnce keyData) :
    s.callsFor keyData = notificationsFor s.notifyList keyData := by
  have hnone (hzero : matchCount s.notifyList keyData = 0) :
      notificationsFor s.notifyList keyData = [] := by
    rw [← List.length_eq_zero_iff, length_notificationsFor, hzero]
  obtain ⟨hone, hdrop⟩ := h
  rw [callsFor, entriesFor]
  split
  · next hd => rw [hnone (hdrop hd), List.flatMap_nil]
  · rcases Nat.le_one_iff_eq_zero_or_eq_one.mp hone with hzero | hsingle
    · rw [hzero, List.replicate_zero, List.flatMap_nil, hnone hzero]
    · rw [hsingle, List.replicate_one, List.flatMap_singleton]

theorem notifiesOnce_of_length
    (h : (s.callsFor keyData).length = matchCount s.notifyList keyData) :
    s.NotifiesOnce keyData := by
  rw [length_callsFor] at h
  split at h
  · exact ⟨by omega, fun _ => h.symm⟩
  · next hd =>
    refine ⟨?_, fun hd' => absurd hd' hd⟩
    by_contra htwo
    have hlt : matchCount s.notifyList keyData * 1 <
        matchCount s.notifyList keyData * matchCount s.notifyList keyData :=
      Nat.mul_lt_mul_of_pos_left (by omega) (by omega)
    omega

theorem entryCalls_eq_dueNotifications_iff :
    s.entryCalls keys = dueNotifications s.notifyList keys ↔
      ∀ keyData ∈ keys, s.NotifiesOnce keyData := by
  rw [entryCalls_eq, dueNotifications]
  constructor
  · intro heq keyData hmem
    have hcount := congrArg (List.countP (fun p => p.2 = keyData)) heq
    rw [countP_flatMap_key (fun _ _ => mem_callsFor),
      countP_flatMap_key (fun _ _ => mem_notificationsFor), length_notificationsFor] at hcount
    exact notifiesOnce_of_length (Nat.eq_of_mul_eq_mul_left (List.count_pos_iff.mpr hmem) hcount)
  · intro h
    exact List.flatMap_congr fun keyData hmem => callsFor_eq (h keyData hmem)

end KeypadTextIn

open KeypadTextIn

/-- Every matching registration is called once for each pushed keystroke, in push order, and
no other, exactly if no pushed keystroke matches two and no dropped one matches any. -/
theorem keyNotifications_once_iff {δ : Type} (s : KeypadTextIn EfiKeyQueue δ)
    (actions : List KeypadAction) (hstart : Represents s.efiKeyQueueForNotify [])
    (hcalls : s.calls = []) (hfit : NeverOverflows s actions) :
    (notifyAll (s.actAll actions)).calls = dueNotifications s.notifyList (pushedKeys actions) ↔
      ∀ keyData ∈ pushedKeys actions, s.NotifiesOnce keyData := by
  rw [notifyAll_calls hstart hcalls hfit]
  exact entryCalls_eq_dueNotifications_iff

def scanDownKey : EfiKeyData := ⟨0x0002, 0, 0, 0⟩

/-- A device with nothing queued and the given registrations. -/
def keypadWith (notifyList : List KeypadNotifyNode) : KeypadTextIn EfiKeyQueue Unit :=
  { initial () zeroKeyQueue with notifyList }

theorem keyNotifications_once_volumeKeys :
    (notifyAll ((keypadWith [⟨5, ⟨scanUpKey, 0⟩⟩, ⟨6, ⟨scanDownKey, 1⟩⟩]).actAll
        [.push scanUpKey, .push scanDownKey])).calls =
      [(⟨5, ⟨scanUpKey, 0⟩⟩, scanUpKey), (⟨6, ⟨scanDownKey, 1⟩⟩, scanDownKey)] :=
  (keyNotifications_once_iff (keypadWith [⟨5, ⟨scanUpKey, 0⟩⟩, ⟨6, ⟨scanDownKey, 1⟩⟩])
    [.push scanUpKey, .push scanDownKey] zeroKeyQueue_represents rfl (by decide)).mpr (by decide)

/-- Two registrations for one key: one keystroke calls each of them twice. -/
theorem keyNotifications_twice :
    ¬∀ (s : KeypadTextIn EfiKeyQueue Unit) (actions : List KeypadAction),
      Represents s.efiKeyQueueForNotify [] → s.calls = [] → NeverOverflows s actions →
      (notifyAll (s.actAll actions)).calls =
        dueNotifications s.notifyList (pushedKeys actions) := by
  intro h
  have htwice := h (keypadWith [⟨5, ⟨scanUpKey, 0⟩⟩, ⟨6, ⟨scanUpKey, 1⟩⟩]) [.push scanUpKey]
    zeroKeyQueue_represents rfl (by decide)
  revert htwice
  decide

end ProjectMu
