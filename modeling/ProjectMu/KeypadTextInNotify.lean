import ProjectMu.KeypadTextInRefines
import ProjectMu.KeypadTextInSteps

/-!
# Registrations of the keypad driver over a run

A registration serves its function until its handle is given back, and is silent from then on,
even for keystrokes that are queued already. A keystroke that is queued for notification never
waits for a handler that nothing starts.
-/

namespace ProjectMu

namespace KeypadTextIn

open RingQueue

variable {Q δ : Type}

theorem dispatchNotify_spec (s : KeypadTextIn Q δ) :
    (dispatchNotify s).notifyList = s.notifyList ∧ (dispatchNotify s).calls = s.calls := by
  rw [dispatchNotify]
  split <;> exact ⟨rfl, rfl⟩

/-- No two nodes have the same handle, and no registration covers a later one of its function. -/
structure Registered (notifyList : List KeypadNotifyNode) : Prop where
  handles : (notifyList.map KeypadNotifyNode.handle).Nodup
  distinct : notifyList.Pairwise fun node node' =>
    node.notify.keyNotificationFn = node'.notify.keyNotificationFn →
      isKeyRegistered node.notify.keyData node'.notify.keyData = false

theorem Registered.append {s : KeypadTextIn Q δ} {keyData : EfiKeyData} {fn handle : ℕ}
    (h : Registered s.notifyList) (hnone : registeredNode keyData fn s.notifyList = none)
    (hfresh : handle ∉ s.notifyList.map KeypadNotifyNode.handle) :
    Registered (s.notifyList ++ [⟨handle, ⟨keyData, fn⟩⟩]) := by
  refine ⟨?_, ?_⟩
  · rw [List.map_append, List.map_singleton]
    exact h.handles.append (List.nodup_singleton _) (List.disjoint_singleton.mpr hfresh)
  · refine List.pairwise_append.mpr ⟨h.distinct, List.pairwise_singleton _ _, ?_⟩
    intro node hnode node' hnode' hfn
    obtain rfl := List.mem_singleton.mp hnode'
    have hnot := List.find?_eq_none.mp hnone node hnode
    rw [Bool.and_eq_true, beq_iff_eq, not_and] at hnot
    exact Bool.eq_false_iff.mpr fun hmatch => hnot hmatch hfn

variable [KeyQueue Q] {s s' s₁ s₂ : KeypadTextIn Q δ} {p : KeypadPlatform δ}
  {taken : List EfiKeyData} {replies : List KeypadReply} {reply : KeypadReply}
  {call : KeypadCall} {calls : List KeypadCall} {keyData : EfiKeyData} {fn handle : ℕ}

theorem keyNotifyProcessHandler_spec (s : KeypadTextIn Q δ) :
    (keyNotifyProcessHandler s).notifyList = s.notifyList ∧
      ∃ new, (keyNotifyProcessHandler s).calls = s.calls ++ new ∧
        ∀ call ∈ new, call.1 ∈ s.notifyList := by
  rw [keyNotifyProcessHandler]
  split
  · exact ⟨rfl, [], (List.append_nil _).symm, fun _ h => absurd h List.not_mem_nil⟩
  · split
    · exact ⟨rfl, [], (List.append_nil _).symm, fun _ h => absurd h List.not_mem_nil⟩
    · refine ⟨rfl, _, rfl, fun call hcall => ?_⟩
      obtain ⟨node, hnode, rfl⟩ := List.mem_map.mp hcall
      exact List.mem_of_mem_filter hnode

/-- A move keeps the notify list, and only calls what is on it. -/
theorem Move.notifyList (h : Move s taken s') :
    s'.notifyList = s.notifyList ∧
      ∃ new, s'.calls = s.calls ++ new ∧ ∀ call ∈ new, call.1 ∈ s.notifyList := by
  have hnone : ∃ new, s.calls = s.calls ++ new ∧ ∀ call ∈ new, call.1 ∈ s.notifyList :=
    ⟨[], (List.append_nil _).symm, fun _ h => absurd h List.not_mem_nil⟩
  cases h with
  | quiet hsame =>
    rw [hsame.calls]
    exact ⟨hsame.notifyList, hnone⟩
  | push keyData hdrop =>
    rw [(pushed hdrop).calls]
    exact ⟨(pushed hdrop).notifyList, hnone⟩
  | take => exact ⟨rfl, hnone⟩
  | miss => exact ⟨rfl, hnone⟩
  | dispatch =>
    rw [(dispatchNotify_spec s).2]
    exact ⟨(dispatchNotify_spec s).1, hnone⟩
  | process => exact keyNotifyProcessHandler_spec s

theorem Path.notifyList (h : Path s taken s') :
    s'.notifyList = s.notifyList ∧
      ∃ new, s'.calls = s.calls ++ new ∧ ∀ call ∈ new, call.1 ∈ s.notifyList := by
  induction h with
  | refl s => exact ⟨rfl, [], (List.append_nil _).symm, fun _ h => absurd h List.not_mem_nil⟩
  | step hmove _ ih =>
    obtain ⟨hlist, new, hcalls, hnew⟩ := hmove.notifyList
    obtain ⟨hlist', new', hcalls', hnew'⟩ := ih
    refine ⟨hlist'.trans hlist, new ++ new', ?_, fun call hcall => ?_⟩
    · rw [hcalls', hcalls, List.append_assoc]
    · rcases List.mem_append.mp hcall with h | h
      · exact hnew call h
      · rw [← hlist]
        exact hnew' call h

/-- What is queued for notification waits for a handler that runs or is about to. Of the
keystrokes after the first `since` and the calls after the first `made`: what is queued has been
taken over, and every call was asked for and has its keystroke from the keypad. -/
structure NotifySound (since made : ℕ) (s : KeypadLists δ) : Prop where
  since_le : since ≤ s.accepted.length
  made_le : made ≤ s.calls.length
  woken : s.efiKeyQueueForNotify ≠ [] → s.notifySignaled = true ∨ s.notifyRunning = true
  queued : ∀ key ∈ s.efiKeyQueueForNotify, key ∈ s.accepted.drop since
  called : ∀ call ∈ s.calls.drop made,
    isKeyRegistered call.1.notify.keyData call.2 = true ∧ call.2 ∈ s.accepted.drop since

variable {since made : ℕ}

theorem NotifySound.congr {s s' : KeypadLists δ} (h : NotifySound since made s)
    (hsame : SameWork s s') : NotifySound since made s' := by
  refine ⟨?_, ?_, ?_, ?_, ?_⟩
  · rw [hsame.accepted]
    exact h.since_le
  · rw [hsame.calls]
    exact h.made_le
  · rw [hsame.notify, hsame.signaled, hsame.running]
    exact h.woken
  · rw [hsame.notify, hsame.accepted]
    exact h.queued
  · rw [hsame.calls, hsame.accepted]
    exact h.called

/-- Entries of the notify queue are old ones or the keystroke the loop adds. -/
theorem mem_foldl_push {key : EfiKeyData} (nodes : List KeypadNotifyNode)
    (queue : List EfiKeyData)
    (h : key ∈ nodes.foldl (fun queue _ => KeyQueue.push queue keyData) queue) :
    key ∈ queue ∨ key = keyData := by
  induction nodes generalizing queue with
  | nil => exact .inl h
  | cons node nodes ih =>
    rcases ih _ h with hmem | hkey
    · have hsub : (KeyQueue.push queue keyData).Sublist (queue ++ [keyData]) := by
        change (pushBounded _ queue keyData).Sublist _
        rw [pushBounded]
        split
        · exact (List.tail_sublist queue).append_right [keyData]
        · exact List.Sublist.refl _
      rcases List.mem_append.mp (hsub.subset hmem) with hold | hnew
      · exact .inl hold
      · exact .inr (List.mem_singleton.mp hnew)
    · exact .inr hkey

theorem NotifySound.push {s s' : KeypadLists δ} (h : NotifySound since made s)
    (hpush : Pushed keyData s s') : NotifySound since made s' := by
  have hdrop : s'.accepted.drop since = s.accepted.drop since ++ [keyData] := by
    rw [hpush.accepted, List.drop_append_of_le_length h.since_le]
  refine ⟨?_, ?_, ?_, ?_, ?_⟩
  · rw [hpush.accepted, List.length_append]
    exact h.since_le.trans (Nat.le_add_right _ _)
  · rw [hpush.calls]
    exact h.made_le
  · rw [hpush.notify, hpush.signaled, hpush.running]
    intro hne
    cases hmatching : matching keyData s.notifyList with
    | nil =>
      rw [hmatching] at hne
      rw [List.isEmpty_nil, Bool.not_true, Bool.or_false]
      exact h.woken hne
    | cons node nodes =>
      rw [List.isEmpty_cons, Bool.not_false, Bool.or_true]
      exact .inl rfl
  · rw [hpush.notify, hdrop]
    intro key hkey
    rcases mem_foldl_push _ _ hkey with hold | rfl
    · exact List.mem_append_left _ (h.queued key hold)
    · exact List.mem_append_right _ (List.mem_singleton_self _)
  · rw [hpush.calls, hdrop]
    intro call hcall
    exact ⟨(h.called call hcall).1, List.mem_append_left _ (h.called call hcall).2⟩

theorem NotifySound.dispatch {s : KeypadLists δ} (h : NotifySound since made s) :
    NotifySound since made (dispatchNotify s) := by
  rw [dispatchNotify]
  split
  · exact ⟨h.since_le, h.made_le, fun _ => .inr rfl, h.queued, h.called⟩
  · exact h

theorem NotifySound.process {s : KeypadLists δ} (h : NotifySound since made s) :
    NotifySound since made (keyNotifyProcessHandler s) := by
  rw [keyNotifyProcessHandler]
  split
  · exact h
  · next hrunning =>
    cases hqueue : s.efiKeyQueueForNotify with
    | nil =>
      exact ⟨h.since_le, h.made_le, fun hne => absurd rfl hne,
        fun _ hkey => absurd hkey List.not_mem_nil, h.called⟩
    | cons key keys =>
      have hqueued := h.queued
      rw [hqueue] at hqueued
      refine ⟨h.since_le, ?_, fun _ => .inr (Bool.not_eq_false _ ▸ hrunning),
        fun key hkey => hqueued key (List.mem_cons_of_mem _ hkey), fun call hcall => ?_⟩
      · exact h.made_le.trans (List.length_append ▸ Nat.le_add_right _ _)
      · change call ∈ (s.calls ++ (matching key s.notifyList).map (·, key)).drop made at hcall
        rw [List.drop_append_of_le_length h.made_le] at hcall
        rcases List.mem_append.mp hcall with hold | hnew
        · exact h.called call hold
        · obtain ⟨node, hnode, rfl⟩ := List.mem_map.mp hnew
          exact ⟨(List.mem_filter.mp hnode).2, hqueued key List.mem_cons_self⟩

theorem NotifySound.path {s s' : KeypadLists δ} (h : NotifySound since made s)
    (hpath : Path s taken s') : NotifySound since made s' := by
  induction hpath with
  | refl => exact h
  | step hmove _ ih =>
    apply ih
    cases hmove with
    | quiet hsame => exact h.congr hsame
    | push keyData hdrop => exact h.push (pushed hdrop)
    | take => exact ⟨h.since_le, h.made_le, h.woken, h.queued, h.called⟩
    | miss => exact ⟨h.since_le, h.made_le, h.woken, h.queued, h.called⟩
    | dispatch => exact h.dispatch
    | process => exact h.process

theorem run_notifySound {s s' : KeypadLists δ} (h : NotifySound since made s)
    (hrun : run p s calls = some (replies, s')) : NotifySound since made s' := by
  induction calls generalizing s replies with
  | nil =>
    obtain ⟨-, rfl⟩ : [] = replies ∧ s = s' := Prod.mk.inj (Option.some.inj hrun)
    exact h
  | cons call calls ih =>
    obtain ⟨reply, s₁, rest, hstep, hrest, rfl⟩ := run_cons hrun
    refine ih ?_ hrest
    rcases step_spec hstep with ⟨-, taken, hpath, -⟩ | ⟨-, -, hcleared⟩ |
      ⟨-, -, notifyList, rfl⟩
    · exact h.path hpath
    · have hempty : s₁.efiKeyQueueForNotify = [] := hcleared.notify
      refine ⟨?_, ?_, fun hne => absurd hempty hne, ?_, ?_⟩
      · rw [hcleared.accepted]
        exact h.since_le
      · rw [hcleared.calls]
        exact h.made_le
      · rw [hempty]
        exact fun _ hkey => absurd hkey List.not_mem_nil
      · rw [hcleared.calls, hcleared.accepted]
        exact h.called
    · exact ⟨h.since_le, h.made_le, h.woken, h.queued, h.called⟩

/-- Whatever is called in whatever order: as long as something is queued for notification, the
handler runs or its event is signaled, and every call it has made was asked for by a
registration and is about a keystroke the driver took over. -/
theorem notifications_woken (p : KeypadPlatform δ) (device : δ)
    {s : KeypadTextIn EfiKeyQueue δ}
    (hrun : run p (initial device zeroKeyQueue) calls = some (replies, s)) :
    (isEfikeyBufEmpty s.efiKeyQueueForNotify = false →
        s.notifySignaled = true ∨ s.notifyRunning = true) ∧
      ∀ call ∈ s.calls,
        isKeyRegistered call.1.notify.keyData call.2 = true ∧ call.2 ∈ s.accepted := by
  obtain ⟨keys, notify, -, hnotify, hlists⟩ := exists_lists (initial_alike device) hrun
  have hsound : NotifySound 0 0 (s.withQueues keys notify) := by
    refine run_notifySound ?_ hlists
    exact ⟨le_rfl, le_rfl, fun hne => absurd rfl hne, fun _ h => absurd h List.not_mem_nil,
      fun _ h => absurd h List.not_mem_nil⟩
  refine ⟨fun hne => hsound.woken fun hnil => ?_, hsound.called⟩
  have hempty : notify = [] := hnil
  rw [isEfikeyBufEmpty_iff.mpr (hnotify.isEmpty_iff.mpr hempty)] at hne
  exact absurd hne (by decide)

theorem notifications_woken_scanUp :
    ∃ s : KeypadTextIn EfiKeyQueue Unit,
      isEfikeyBufEmpty s.efiKeyQueueForNotify = false ∧
        (s.notifySignaled = true ∨ s.notifyRunning = true) :=
  ⟨_, rfl, (@notifications_woken Unit _ [.registerKeyNotify (some scanUpKey) (some 7) true
    (some 5), .timer] (constantKeypad [scanUpKey]) () _ rfl).1 rfl⟩

end KeypadTextIn

end ProjectMu
