import FysobEngine.Net.AsioBufferQueue
import FysobEngine.Net.AsioBufferViews

/-!
# Buffers that act as queues

A `MarkedBuffer` keeps the high-water mask of a stored handler, a `QueueBuffer`
acts on its unread bytes as a queue whenever an operation returns. The block
buffer is both in every state that its operations reach. A plain list of unread
bytes is the queue itself.
-/

namespace FysobEngine.Net

/-- A buffer that invokes a stored handler when fewer bytes than its mask are left. -/
class MarkedBuffer (β : Type) extends SessionBuffer β where
  highWaterMask : β → Nat
  set_readableBytes (b : β) (mask : Nat) :
    readableBytes (setNotifyBehindHighWaterMask b mask) = readableBytes b
  set_highWaterMask (b : β) (mask : Nat) :
    highWaterMask (setNotifyBehindHighWaterMask b mask) = mask
  retrieve_invoked {b b' : β} {len : Nat} :
    retrieve b len = some (b', true) → armed b = true ∧ readableBytes b' < highWaterMask b
  retrieve_kept {b b' : β} {len : Nat} : retrieve b len = some (b', false) →
    highWaterMask b' = highWaterMask b ∧ (armed b = true → highWaterMask b ≤ readableBytes b')

/-- A buffer whose unread bytes are a queue. Operations that do not return say
nothing about it. -/
class QueueBuffer (β : Type) extends MarkedBuffer β where
  content : β → List UInt8
  readableBytes_eq (b : β) : readableBytes b = (content b).length
  constBuffer_eq (b : β) : constBuffer b = content b
  create_content : content create = []
  append_content {b b' : β} {data : List UInt8} :
    append b data = some b' → content b' = content b ++ data
  receive_content {b b' : β} {data : List UInt8} :
    receive b data = some b' → content b' = content b ++ data
  retrieve_content {b b' : β} {len : Nat} {invoked : Bool} :
    retrieve b len = some (b', invoked) →
      len ≤ (content b).length ∧ content b' = (content b).drop len
  set_content (b : β) (mask : Nat) :
    content (setNotifyBehindHighWaterMask b mask) = content b

/-! ## The block buffer -/

namespace AsioBuffer

theorem retrieve_mark {s f : AsioBuffer} {len : Nat} {invoked : Bool}
    (done : s.retrieve len = some (f, invoked)) :
    len ≤ s.readableBytes ∧ f.readableBytes = s.readableBytes - len ∧
      if s.notifyBehindHighWaterMask = true ∧ s.readableBytes - len < s.highWaterMask then
        invoked = true
      else invoked = false ∧ f.highWaterMask = s.highWaterMask := by
  unfold retrieve at done
  split at done
  · next inside =>
      obtain ⟨position, _, result⟩ := Option.map_eq_some_iff.mp done
      dsimp only at result
      split at result
      · next below =>
          cases result
          rw [Bool.and_eq_true, decide_eq_true_eq] at below
          exact ⟨inside, rfl, by rw [if_pos below]⟩
      · next above =>
          cases result
          rw [Bool.and_eq_true, decide_eq_true_eq] at above
          exact ⟨inside, rfl, by rw [if_neg above]; exact ⟨rfl, rfl⟩⟩
  · cases done

theorem retrieve_invoked {s f : AsioBuffer} {len : Nat}
    (done : s.retrieve len = some (f, true)) :
    s.notifyBehindHighWaterMask = true ∧ f.readableBytes < s.highWaterMask := by
  obtain ⟨_, count, marked⟩ := retrieve_mark done
  split at marked
  · next below =>
      rw [count]
      exact below
  · cases marked.1

theorem retrieve_kept {s f : AsioBuffer} {len : Nat}
    (done : s.retrieve len = some (f, false)) :
    f.highWaterMask = s.highWaterMask ∧
      (s.notifyBehindHighWaterMask = true → s.highWaterMask ≤ f.readableBytes) := by
  obtain ⟨_, count, marked⟩ := retrieve_mark done
  split at marked
  · cases marked
  · next above =>
      refine ⟨marked.2, fun armed => ?_⟩
      rw [count]
      exact Nat.le_of_not_lt fun below => above ⟨armed, below⟩

instance : MarkedBuffer AsioBuffer where
  highWaterMask := highWaterMask
  set_readableBytes := fun _ _ => rfl
  set_highWaterMask := fun _ _ => rfl
  retrieve_invoked := retrieve_invoked
  retrieve_kept := retrieve_kept

/-- The states of a block buffer whose positions and counters are sound. -/
abbrev LaidOut := { s : AsioBuffer // Layout s }

/-- An append that returns has appended. -/
theorem append_appends {s f : AsioBuffer} (layout : Layout s) {data : List UInt8}
    (done : s.append data = some f) : Appends s data f := by
  cases active : s.active with
  | false =>
      obtain ⟨g, again, appends⟩ := append_first layout active data
      rw [done, Option.some.injEq] at again
      exact again ▸ appends
  | true =>
      by_cases fits : s.Fits data.length
      · obtain ⟨g, again, appends⟩ := append_active layout active fits
        rw [done, Option.some.injEq] at again
        exact again ▸ appends
      · rw [append_none layout active fits] at done
        cases done

/-- So has a completed read. -/
theorem receive_appends {s f : AsioBuffer} (layout : Layout s) {data : List UInt8}
    (done : s.receive data = some f) : Appends s data f := by
  unfold receive at done
  split at done
  · next inside =>
      cases active : s.active with
      | false =>
          obtain ⟨g, again, appends⟩ := hasWritten_first layout active inside
          rw [done, Option.some.injEq] at again
          exact again ▸ appends
      | true =>
          by_cases fits : s.Fits data.length
          · obtain ⟨g, again, appends⟩ := hasWritten_active layout active inside fits
            rw [done, Option.some.injEq] at again
            exact again ▸ appends
          · have counters := (fillMutable_counters layout inside data.length).2
            rw [hasWritten_none (fillMutable_layout layout inside) active
              (fun filled => fits (counters.mp filled))] at done
            cases done
  · cases done

theorem retrieve_drops {s f : AsioBuffer} (layout : Layout s) {len : Nat} {invoked : Bool}
    (done : s.retrieve len = some (f, invoked)) :
    Layout f ∧ len ≤ s.content.length ∧ f.content = s.content.drop len := by
  have inside := (retrieve_mark done).1
  obtain ⟨g, notified, again, after, bytes, _⟩ := retrieve_some layout inside
  rw [done, Option.some.injEq, Prod.mk.injEq] at again
  rw [again.1, content_length layout]
  exact ⟨after, inside, bytes⟩

theorem setNotify_layout {s : AsioBuffer} (layout : Layout s) (mask : Nat) :
    Layout (s.setNotifyBehindHighWaterMask mask) :=
  { layout with }

namespace LaidOut

def append (s : LaidOut) (data : List UInt8) : Option LaidOut :=
  (s.1.append data).attach.map fun f => ⟨f.1, (append_appends s.2 f.2).layout⟩

def receive (s : LaidOut) (data : List UInt8) : Option LaidOut :=
  (s.1.receive data).attach.map fun f => ⟨f.1, (receive_appends s.2 f.2).layout⟩

def retrieve (s : LaidOut) (len : Nat) : Option (LaidOut × Bool) :=
  (s.1.retrieve len).attach.map fun f => (⟨f.1.1, (retrieve_drops s.2 f.2).1⟩, f.1.2)

theorem append_some {s f : LaidOut} {data : List UInt8} (done : s.append data = some f) :
    s.1.append data = some f.1 := by
  obtain ⟨⟨g, result⟩, _, rfl⟩ := Option.map_eq_some_iff.mp done
  exact result

theorem append_of_some {s : LaidOut} {f : AsioBuffer} {data : List UInt8}
    (done : s.1.append data = some f) : ∃ g, s.append data = some g ∧ g.1 = f := by
  cases appended : s.append data with
  | none =>
      rw [append, Option.map_eq_none_iff, Option.attach_eq_none_iff, done] at appended
      cases appended
  | some g =>
      have same := append_some appended
      rw [done, Option.some.injEq] at same
      exact ⟨g, rfl, same.symm⟩

theorem receive_some {s f : LaidOut} {data : List UInt8} (done : s.receive data = some f) :
    s.1.receive data = some f.1 := by
  obtain ⟨⟨g, result⟩, _, rfl⟩ := Option.map_eq_some_iff.mp done
  exact result

theorem retrieve_some {s f : LaidOut} {len : Nat} {invoked : Bool}
    (done : s.retrieve len = some (f, invoked)) : s.1.retrieve len = some (f.1, invoked) := by
  obtain ⟨⟨g, result⟩, _, same⟩ := Option.map_eq_some_iff.mp done
  cases same
  exact result

/-- The block buffer acts as a queue wherever its operations return. -/
instance : QueueBuffer LaidOut where
  create := ⟨create kInitialSize, create_layout.1⟩
  readableBytes := fun s => s.1.readableBytes
  writableBytes := fun s => s.1.writableBytes
  constBuffer := fun s => segmentBytes s.1.buffer s.1.constBuffer
  append := append
  receive := receive
  retrieve := retrieve
  setNotifyBehindHighWaterMask := fun s mask => ⟨_, setNotify_layout s.2 mask⟩
  armed := fun s => s.1.notifyBehindHighWaterMask
  create_armed := rfl
  append_armed := fun done => append_keeps_armed (append_some done)
  receive_armed := fun done => receive_keeps_armed (receive_some done)
  retrieve_armed := fun done => retrieve_takes_armed (retrieve_some done)
  set_armed := fun _ _ => rfl
  highWaterMask := fun s => s.1.highWaterMask
  set_readableBytes := fun _ _ => rfl
  set_highWaterMask := fun _ _ => rfl
  retrieve_invoked := fun done => AsioBuffer.retrieve_invoked (retrieve_some done)
  retrieve_kept := fun done => AsioBuffer.retrieve_kept (retrieve_some done)
  content := fun s => s.1.content
  readableBytes_eq := fun s => (content_length s.2).symm
  constBuffer_eq := fun s => constBuffer_bytes s.2
  create_content := rfl
  append_content := fun {s _ _} done => (append_appends s.2 (append_some done)).content
  receive_content := fun {s _ _} done => (receive_appends s.2 (receive_some done)).content
  retrieve_content := fun {s _ _ _} done => (retrieve_drops s.2 (retrieve_some done)).2
  set_content := fun _ _ => rfl

end LaidOut

end AsioBuffer

/-! ## The queue itself -/

/-- A list of unread bytes with a stored handler and its mask. -/
structure PlainQueue where
  unread : List UInt8
  highWaterMask : Nat
  armed : Bool
  deriving DecidableEq, Repr

namespace PlainQueue

/-- `retrieve` of a queue, with whether the handler was invoked. -/
def retrieve (s : PlainQueue) (len : Nat) : Option (PlainQueue × Bool) :=
  if len ≤ s.unread.length then
    if s.armed && (s.unread.drop len).length < s.highWaterMask then
      some (⟨s.unread.drop len, 0, false⟩, true)
    else some ({ s with unread := s.unread.drop len }, false)
  else none

theorem retrieve_cases {s f : PlainQueue} {len : Nat} {invoked : Bool}
    (done : s.retrieve len = some (f, invoked)) :
    len ≤ s.unread.length ∧
      ((s.armed = true ∧ (s.unread.drop len).length < s.highWaterMask) ∧ invoked = true ∧
          f = ⟨s.unread.drop len, 0, false⟩ ∨
        (s.armed = true → s.highWaterMask ≤ (s.unread.drop len).length) ∧ invoked = false ∧
          f = { s with unread := s.unread.drop len }) := by
  unfold retrieve at done
  split at done
  · next inside =>
      refine ⟨inside, ?_⟩
      split at done
      · next below =>
          cases done
          rw [Bool.and_eq_true, decide_eq_true_eq] at below
          exact .inl ⟨below, rfl, rfl⟩
      · next above =>
          cases done
          rw [Bool.and_eq_true, decide_eq_true_eq] at above
          exact .inr ⟨fun armed => Nat.le_of_not_lt fun below => above ⟨armed, below⟩, rfl, rfl⟩
  · cases done

instance : QueueBuffer PlainQueue where
  create := ⟨[], 0, false⟩
  readableBytes := fun s => s.unread.length
  writableBytes := fun _ => 1
  constBuffer := unread
  append := fun s data => some { s with unread := s.unread ++ data }
  receive := fun s data => some { s with unread := s.unread ++ data }
  retrieve := retrieve
  setNotifyBehindHighWaterMask := fun s mask => { s with highWaterMask := mask, armed := true }
  armed := armed
  create_armed := rfl
  append_armed := by
    intro s f data done
    cases done
    rfl
  receive_armed := by
    intro s f data done
    cases done
    rfl
  retrieve_armed := by
    intro s f len invoked done
    obtain ⟨_, ⟨below, rfl, rfl⟩ | ⟨_, rfl, rfl⟩⟩ := retrieve_cases done
    · exact ⟨below.1, fun _ => rfl⟩
    · exact ⟨(Bool.or_false _).symm, fun impossible => by cases impossible⟩
  set_armed := fun _ _ => rfl
  highWaterMask := highWaterMask
  set_readableBytes := fun _ _ => rfl
  set_highWaterMask := fun _ _ => rfl
  retrieve_invoked := by
    intro s f len done
    obtain ⟨_, ⟨below, _, rfl⟩ | ⟨_, impossible, _⟩⟩ := retrieve_cases done
    · exact below
    · cases impossible
  retrieve_kept := by
    intro s f len done
    obtain ⟨_, ⟨_, impossible, _⟩ | ⟨above, _, rfl⟩⟩ := retrieve_cases done
    · cases impossible
    · exact ⟨rfl, above⟩
  content := unread
  readableBytes_eq := fun _ => rfl
  constBuffer_eq := fun _ => rfl
  create_content := rfl
  append_content := by
    intro s f data done
    cases done
    rfl
  receive_content := by
    intro s f data done
    cases done
    rfl
  retrieve_content := by
    intro s f len invoked done
    obtain ⟨inside, ⟨_, _, rfl⟩ | ⟨_, _, rfl⟩⟩ := retrieve_cases done
    · exact ⟨inside, rfl⟩
    · exact ⟨inside, rfl⟩
  set_content := fun _ _ => rfl

end PlainQueue

end FysobEngine.Net
