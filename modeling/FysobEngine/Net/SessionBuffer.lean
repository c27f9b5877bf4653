import FysobEngine.Net.AsioBuffer

/-!
# The buffers of a session

What a session uses of its read buffer and of its write buffer, and the block
buffer as one of them. A handler that waits for the high-water mark is stored
until a `retrieve` invokes it.
-/

namespace FysobEngine.Net

/-- The operations of a buffer that a session and its handlers call. -/
class SessionBuffer (β : Type) where
  create : β
  readableBytes : β → Nat
  writableBytes : β → Nat
  /-- The bytes that the segments of `const_buffer()` show. -/
  constBuffer : β → List UInt8
  append : β → List UInt8 → Option β
  /-- Bytes stored into `mutable_buffer()`, and `has_written`. -/
  receive : β → List UInt8 → Option β
  /-- `retrieve`, with whether the high-water handler was invoked. -/
  retrieve : β → Nat → Option (β × Bool)
  setNotifyBehindHighWaterMask : β → Nat → β
  /-- Whether a handler is stored. -/
  armed : β → Bool
  create_armed : armed create = false
  append_armed {b b' : β} {data : List UInt8} :
    append b data = some b' → armed b' = armed b
  receive_armed {b b' : β} {data : List UInt8} :
    receive b data = some b' → armed b' = armed b
  retrieve_armed {b b' : β} {len : Nat} {invoked : Bool} :
    retrieve b len = some (b', invoked) →
      armed b = (armed b' || invoked) ∧ (invoked = true → armed b' = false)
  set_armed (b : β) (mask : Nat) : armed (setNotifyBehindHighWaterMask b mask) = true

namespace AsioBuffer

/-- `const_buffer`. -/
def constBuffer (s : AsioBuffer) : List (Nat × Nat × Nat) :=
  if s.readBufferIter = s.writeBufferIter then
    [(s.readBufferIter, s.readIndex, s.writeIndex - s.readIndex)]
  else
    match s.buffer.drop s.readBufferIter with
    | [] => []
    | block :: rest =>
        (s.readBufferIter, s.readIndex, block.length - s.readIndex) ::
          wholeSegments (s.readBufferIter + 1)
            (rest.take (s.writeBufferIter - (s.readBufferIter + 1))) ++
          [(s.writeBufferIter, 0, s.writeIndex)]

/-- The bytes that segments of the blocks show. -/
def segmentBytes (buffer : List DataBlock) (segments : List (Nat × Nat × Nat)) : List UInt8 :=
  segments.flatMap fun (iter, index, len) => ((buffer.getD iter []).drop index).take len

/-- An asynchronous read into `mutable_buffer()`, and its `has_written`. -/
def receive (s : AsioBuffer) (data : List UInt8) : Option AsioBuffer :=
  if data.length ≤ segmentsLength s.mutableBuffer then
    (s.fillMutable data).hasWritten data.length
  else none

/-! ## Writing leaves the stored handler alone -/

/-- What `notify_behind_high_water_mask_` and `high_water_mask_` store. -/
def handler (s : AsioBuffer) : Bool × Nat := (s.notifyBehindHighWaterMask, s.highWaterMask)

/-- What only `adjust_buffer` itself and the handler's own functions set. -/
def settings (s : AsioBuffer) : Nat × Bool × Nat := (s.lowUseCount, s.handler)

section Armed

variable {s f : AsioBuffer}

theorem handler_of_settings (same : f.settings = s.settings) : f.handler = s.handler :=
  congrArg Prod.snd same

theorem lowUseCount_of_settings (same : f.settings = s.settings) :
    f.lowUseCount = s.lowUseCount :=
  congrArg Prod.fst same

theorem checkActive_settings (done : s.checkActive = some f) :
    f.settings = s.settings := by
  unfold checkActive at done
  split at done
  · cases done
    rfl
  · split at done
    · cases done
      rfl
    · cases done

theorem checkToAddBlock_settings {len : Nat} (done : s.checkToAddBlock len = some f) :
    f.settings = s.settings := by
  unfold checkToAddBlock at done
  split at done
  · cases done
    split
    · rfl
    · rfl
  · cases done

theorem rotateLoop_settings {count : Nat} (done : rotateLoop count s = some f) :
    f.settings = s.settings := by
  induction count generalizing s with
  | zero =>
      cases done
      rfl
  | succ count ih =>
      obtain ⟨middle, front, rest⟩ := Option.bind_eq_some_iff.mp done
      rw [ih rest]
      unfold rotateFront at front
      split at front
      · cases front
        rfl
      · cases front

theorem growLoop_settings {fuel remainLen : Nat} (done : growLoop fuel remainLen s = some f) :
    f.settings = s.settings := by
  induction fuel generalizing s remainLen with
  | zero =>
      cases remainLen with
      | zero =>
          cases done
          rfl
      | succ remainLen => cases done
  | succ fuel ih =>
      cases remainLen with
      | zero =>
          cases done
          rfl
      | succ remainLen =>
          rw [growLoop] at done
          rw [ih done]
          rfl

theorem reduceBlocks_handler (done : s.reduceBlocks = some f) :
    f.handler = s.handler := by
  obtain ⟨kept, _, rfl⟩ := Option.map_eq_some_iff.mp done
  rfl

theorem countLowUse_handler (s : AsioBuffer) :
    s.countLowUse.handler = s.handler := by
  unfold countLowUse
  split
  · rfl
  · rfl

theorem adjustBuffer_handler {len : Nat} (done : s.adjustBuffer len = some f) :
    f.handler = s.handler := by
  obtain ⟨rotated, rotate, rest⟩ := Option.bind_eq_some_iff.mp done
  rw [← handler_of_settings (rotateLoop_settings rotate)]
  split at rest
  · obtain ⟨room, check, rest⟩ := Option.bind_eq_some_iff.mp rest
    rw [← handler_of_settings (checkToAddBlock_settings check), ← countLowUse_handler room]
    dsimp only at rest
    split at rest
    · exact reduceBlocks_handler rest
    · cases rest
      rfl
  · obtain ⟨grown, grow, rest⟩ := Option.bind_eq_some_iff.mp rest
    rw [handler_of_settings (checkToAddBlock_settings rest),
      handler_of_settings (growLoop_settings grow)]
    rfl

theorem advanceWrite_settings {len : Nat} (done : s.advanceWrite len = some f) :
    f.settings = s.settings := by
  obtain ⟨position, _, rfl⟩ := Option.map_eq_some_iff.mp done
  rfl

theorem append_handler {data : List UInt8} (done : s.append data = some f) :
    f.handler = s.handler := by
  obtain ⟨active, activated, rest⟩ := Option.bind_eq_some_iff.mp done
  obtain ⟨adjusted, adjust, rest⟩ := Option.bind_eq_some_iff.mp rest
  obtain ⟨blocks, _, rest⟩ := Option.bind_eq_some_iff.mp rest
  rw [handler_of_settings (advanceWrite_settings rest),
    ← handler_of_settings (checkActive_settings activated), ← adjustBuffer_handler adjust]
  rfl

theorem receive_handler {data : List UInt8} (done : s.receive data = some f) :
    f.handler = s.handler := by
  unfold receive hasWritten at done
  split at done
  · split at done
    · obtain ⟨active, activated, rest⟩ := Option.bind_eq_some_iff.mp done
      obtain ⟨adjusted, adjust, rest⟩ := Option.bind_eq_some_iff.mp rest
      rw [handler_of_settings (advanceWrite_settings rest), adjustBuffer_handler adjust,
        handler_of_settings (checkActive_settings activated)]
      rfl
    · cases done
  · cases done

theorem append_keeps_armed {data : List UInt8} (done : s.append data = some f) :
    f.notifyBehindHighWaterMask = s.notifyBehindHighWaterMask :=
  congrArg Prod.fst (append_handler done)

theorem receive_keeps_armed {data : List UInt8} (done : s.receive data = some f) :
    f.notifyBehindHighWaterMask = s.notifyBehindHighWaterMask :=
  congrArg Prod.fst (receive_handler done)

/-- A handler that is invoked was stored, and is not afterwards. -/
theorem retrieve_takes_armed {len : Nat} {invoked : Bool}
    (done : s.retrieve len = some (f, invoked)) :
    s.notifyBehindHighWaterMask = (f.notifyBehindHighWaterMask || invoked) ∧
      (invoked = true → f.notifyBehindHighWaterMask = false) := by
  unfold retrieve at done
  split at done
  · obtain ⟨position, _, result⟩ := Option.map_eq_some_iff.mp done
    dsimp only at result
    split at result
    · cases result
      rename_i below
      rw [Bool.and_eq_true] at below
      exact ⟨below.1, fun _ => rfl⟩
    · cases result
      exact ⟨(Bool.or_false _).symm, fun impossible => by cases impossible⟩
  · cases done

end Armed

instance : SessionBuffer AsioBuffer where
  create := create kInitialSize
  readableBytes := readableBytes
  writableBytes := writableBytes
  constBuffer := fun s => segmentBytes s.buffer s.constBuffer
  append := append
  receive := receive
  retrieve := retrieve
  setNotifyBehindHighWaterMask := setNotifyBehindHighWaterMask
  armed := notifyBehindHighWaterMask
  create_armed := rfl
  append_armed := append_keeps_armed
  receive_armed := receive_keeps_armed
  retrieve_armed := retrieve_takes_armed
  set_armed := fun _ _ => rfl

end AsioBuffer

end FysobEngine.Net
