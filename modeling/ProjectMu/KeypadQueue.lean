import ProjectMu.GptFormat
import ProjectMu.RingQueue

/-!
# The keystrokes of the keypad driver and their queue

A registration asks for a key with its states, where 0 stands for any state. The queue keeps one
of its cells free, so it holds one keystroke less than it has cells. A push onto a full queue drops
the oldest keystroke. Any sequence of pushes and pops answers as a list with this capacity does.
-/

namespace ProjectMu

open RingQueue

structure EfiKeyData where
  scanCode : BitVec 16
  unicodeChar : BitVec 16
  keyShiftState : BitVec 32
  keyToggleState : BitVec 8
  deriving DecidableEq, Repr

/-- A node of the notify list; `keyNotificationFn` stands for the function it calls. -/
structure KeypadNotify where
  keyData : EfiKeyData
  keyNotificationFn : ℕ
  deriving DecidableEq, Repr

def keypadEfiKeyMaxCount : ℕ := 256

abbrev EfiKeyQueue := Cells keypadEfiKeyMaxCount EfiKeyData

def isKeyRegistered (registeredData inputData : EfiKeyData) : Bool :=
  if registeredData.scanCode ≠ inputData.scanCode ∨
      registeredData.unicodeChar ≠ inputData.unicodeChar then false
  else if registeredData.keyShiftState ≠ 0 ∧
      registeredData.keyShiftState ≠ inputData.keyShiftState then false
  else if registeredData.keyToggleState ≠ 0 ∧
      registeredData.keyToggleState ≠ inputData.keyToggleState then false
  else true

def isEfikeyBufEmpty (queue : EfiKeyQueue) : Bool := queue.head == queue.tail

def popEfikeyBufHead (queue : EfiKeyQueue) : Except EfiError EfiKeyData × EfiKeyQueue :=
  if isEfikeyBufEmpty queue then (.error .notReady, queue)
  else
    (.ok (queue.buffer queue.head),
      { queue with head := (queue.head + 1) % keypadEfiKeyMaxCount })

def pushEfikeyBufTail (queue : EfiKeyQueue) (keyData : EfiKeyData) : EfiKeyQueue :=
  let queue :=
    if (queue.tail + 1) % keypadEfiKeyMaxCount = queue.head then (popEfikeyBufHead queue).2
    else queue
  { queue with
    buffer := Function.update queue.buffer queue.tail keyData
    tail := (queue.tail + 1) % keypadEfiKeyMaxCount }

/-- The queue of a device structure that was allocated with zeros. -/
def zeroKeyQueue : EfiKeyQueue := ⟨fun _ => ⟨0, 0, 0, 0⟩, 0, 0⟩

inductive KeyQueueCall
  | push (keyData : EfiKeyData)
  | pop
  deriving DecidableEq, Repr

/-- The answers of the pops and the queue that the calls leave. -/
def runKeyQueue : EfiKeyQueue → List KeyQueueCall → List (Except EfiError EfiKeyData) × EfiKeyQueue
  | queue, [] => ([], queue)
  | queue, .push keyData :: calls => runKeyQueue (pushEfikeyBufTail queue keyData) calls
  | queue, .pop :: calls =>
    let rest := runKeyQueue (popEfikeyBufHead queue).2 calls
    ((popEfikeyBufHead queue).1 :: rest.1, rest.2)

/-- Taking the oldest keystroke off a list. -/
def popOldest : List EfiKeyData → Except EfiError EfiKeyData × List EfiKeyData
  | [] => (.error .notReady, [])
  | keyData :: keys => (.ok keyData, keys)

/-- The same calls on a list of at most `keypadEfiKeyMaxCount - 1` keystrokes. -/
def runKeyList : List EfiKeyData → List KeyQueueCall →
    List (Except EfiError EfiKeyData) × List EfiKeyData
  | keys, [] => ([], keys)
  | keys, .push keyData :: calls =>
    runKeyList (pushBounded (keypadEfiKeyMaxCount - 1) keys keyData) calls
  | keys, .pop :: calls =>
    let rest := runKeyList (popOldest keys).2 calls
    ((popOldest keys).1 :: rest.1, rest.2)

variable {queue : EfiKeyQueue} {keys : List EfiKeyData}

theorem isEfikeyBufEmpty_iff : isEfikeyBufEmpty queue = true ↔ queue.IsEmpty := beq_iff_eq

theorem popEfikeyBufHead_eq (queue : EfiKeyQueue) :
    popEfikeyBufHead queue = match queue.pop with
      | none => (.error .notReady, queue)
      | some (keyData, queue) => (.ok keyData, queue) := by
  by_cases hempty : queue.IsEmpty
  · rw [popEfikeyBufHead, if_pos (isEfikeyBufEmpty_iff.mpr hempty), Cells.pop, if_pos hempty]
  · rw [popEfikeyBufHead, if_neg (isEfikeyBufEmpty_iff.not.mpr hempty), Cells.pop,
      if_neg hempty]

/-- The pop of a full queue never finds it empty, so the push is the one of a ring. -/
theorem pushEfikeyBufTail_eq (queue : EfiKeyQueue) (keyData : EfiKeyData) :
    pushEfikeyBufTail queue keyData = queue.push keyData := by
  have hpop : (popEfikeyBufHead queue).2 = (queue.pop.map Prod.snd).getD queue := by
    rw [popEfikeyBufHead_eq]
    cases queue.pop with
    | none => rfl
    | some popped => rfl
  simp only [pushEfikeyBufTail, hpop]
  rfl

theorem popEfikeyBufHead_represents (h : Represents queue keys) :
    (popEfikeyBufHead queue).1 = (popOldest keys).1 ∧
      Represents (popEfikeyBufHead queue).2 (popOldest keys).2 := by
  rw [popEfikeyBufHead_eq]
  cases keys with
  | nil =>
    rw [h.pop_nil]
    exact ⟨rfl, h⟩
  | cons keyData keys =>
    obtain ⟨queue', hpop, hrest⟩ := h.pop_cons
    rw [hpop]
    exact ⟨rfl, hrest⟩

theorem runKeyQueue_represents (h : Represents queue keys) (calls : List KeyQueueCall) :
    (runKeyQueue queue calls).1 = (runKeyList keys calls).1 ∧
      Represents (runKeyQueue queue calls).2 (runKeyList keys calls).2 := by
  induction calls generalizing queue keys with
  | nil => exact ⟨rfl, h⟩
  | cons call calls ih =>
    cases call with
    | push keyData =>
      rw [runKeyQueue, runKeyList, pushEfikeyBufTail_eq]
      exact ih (h.push_bounded (by decide) keyData)
    | pop =>
      obtain ⟨hanswer, hrest⟩ := popEfikeyBufHead_represents h
      obtain ⟨hanswers, hlast⟩ := ih hrest
      simp only [runKeyQueue, runKeyList]
      exact ⟨by rw [hanswer, hanswers], hlast⟩

theorem zeroKeyQueue_represents : Represents zeroKeyQueue [] :=
  Represents.nil_of_eq (by decide) rfl

/-- From a zeroed queue on, every sequence of pushes and pops answers as a list of bounded
capacity whose oldest keystroke makes room, and the indices stay inside of the buffer. -/
theorem runKeyQueue_eq_runKeyList (calls : List KeyQueueCall) :
    (runKeyQueue zeroKeyQueue calls).1 = (runKeyList [] calls).1 ∧
      (runKeyQueue zeroKeyQueue calls).2.head < keypadEfiKeyMaxCount ∧
      (runKeyQueue zeroKeyQueue calls).2.tail < keypadEfiKeyMaxCount ∧
      (isEfikeyBufEmpty (runKeyQueue zeroKeyQueue calls).2 = true ↔
        (runKeyList [] calls).2 = []) := by
  obtain ⟨hanswers, hlast⟩ := runKeyQueue_represents zeroKeyQueue_represents calls
  exact ⟨hanswers, hlast.head_lt, hlast.tail_lt, isEfikeyBufEmpty_iff.trans hlast.isEmpty_iff⟩

end ProjectMu
