import FysobEngine.Foundation.Runs
import FysobEngine.Net.QueueBuffer
import FysobEngine.Net.SessionInvariant

/-!
# The bytes that a session writes

Bytes are appended to the write buffer on the work thread and sent from it on
the thread of the socket. Every append posts a write task, which does nothing
while a write is outstanding. The completion of that write then goes on.
-/

namespace FysobEngine.Net

/-- The bytes that write operations have handed to the socket. -/
def sentBytes (trace : List Event) : List UInt8 :=
  trace.flatMap fun
    | .sent data => data
    | _ => []

theorem sentBytes_append (before behind : List Event) :
    sentBytes (before ++ behind) = sentBytes before ++ sentBytes behind :=
  List.flatMap_append

/-- What happens to data that are to be written. `write(data)` posts a task, and
the task appends. A handler that writes through the pipeline appends at once. -/
inductive WriteCall where
  | append (data : List UInt8)
  | post (argument : WriteArgument)
  | run (data : List UInt8)
  deriving DecidableEq, Repr

/-- Everything appended to the write buffer, in order. -/
def appendedBytes (calls : List WriteCall) : List UInt8 :=
  calls.flatMap fun
    | .append data | .run data => data
    | .post _ => []

/-- What the callers of `write(data)` have given it, in the order of their calls. -/
def givenData (calls : List WriteCall) : List (List UInt8) :=
  calls.flatMap fun
    | .post argument => [argument.given]
    | .append _ | .run _ => []

/-- What the tasks of these calls are to append. -/
def postedData (calls : List WriteCall) : List (List UInt8) :=
  calls.flatMap fun
    | .post argument => [argument.queued]
    | .append _ | .run _ => []

/-- The data that the posted tasks have appended, in the order of the appends. -/
def ranData (calls : List WriteCall) : List (List UInt8) :=
  calls.flatMap fun
    | .run data => [data]
    | .append _ | .post _ => []

section WriteCalls

variable (before behind : List WriteCall)

@[simp] theorem appendedBytes_append :
    appendedBytes (before ++ behind) = appendedBytes before ++ appendedBytes behind :=
  List.flatMap_append

@[simp] theorem postedData_append :
    postedData (before ++ behind) = postedData before ++ postedData behind :=
  List.flatMap_append

@[simp] theorem ranData_append :
    ranData (before ++ behind) = ranData before ++ ranData behind :=
  List.flatMap_append

end WriteCalls

/-- The block of `write(data, len)` has room for its data. -/
def WriteArgument.Roomy : WriteArgument → Prop
  | .value _ => True
  | .block data allocated _ => data.length ≤ allocated

theorem WriteArgument.queued_of_roomy {argument : WriteArgument} (roomy : argument.Roomy) :
    argument.queued = argument.given := by
  cases argument with
  | value data => rfl
  | block data allocated beyond =>
      have room : data.length ≤ allocated := roomy
      simp [queued, given, Nat.sub_eq_zero_of_le room, List.take_of_length_le room]

def WriteCall.Roomy : WriteCall → Prop
  | .post argument => argument.Roomy
  | .append _ | .run _ => True

instance (call : WriteCall) : Decidable call.Roomy :=
  match call with
  | .post (.block data allocated _) => inferInstanceAs (Decidable (data.length ≤ allocated))
  | .post (.value _) | .append _ | .run _ => isTrue trivial

/-- What a call of a handler does to data that are to be written. -/
def HandlerCall.writeCalls : HandlerCall → List WriteCall
  | .write data => [.append data]
  | .postWrite argument => [.post argument]
  | .retrieve _ | .close => []

/-- The data that a queued task is to append. -/
def WorkTask.data : WorkTask → List (List UInt8)
  | .write data => [data]
  | .fireRead => []

namespace Session

open Foundation.Runs

variable {β : Type} {settings : Settings}

/-- What an action does to data that are to be written. -/
def writeCalls (s : Session β) : Action → List WriteCall
  | .start connect => connect.flatMap HandlerCall.writeCalls
  | .runWork decode =>
      match s.workQueue with
      | [] => []
      | .fireRead :: _ => decode.flatMap HandlerCall.writeCalls
      | .write data :: _ => [.run data]
  | .write data => [.append data]
  | .postWrite argument => [.post argument]
  | .readDone _ | .writeDone _ _ | .runIo | .close => []

/-- The data of the queued tasks, in the order of their posting. -/
def queuedData (s : Session β) : List (List UInt8) := s.workQueue.flatMap WorkTask.data

variable [QueueBuffer β]

/-- The unsent bytes. -/
def unsent (s : Session β) : List UInt8 := QueueBuffer.content s.writeBuffer

/-- What holds of the bytes to write while the session is open, behind a run that
has made these calls. -/
structure WritePath (calls : List WriteCall) (s : Session β) : Prop where
  pending : s.pendingWriteLen = SessionBuffer.readableBytes s.writeBuffer
  /-- A completion subtracts no more than there is. -/
  given : ∀ data ∈ s.writes, data.length ≤ s.pendingWriteLen
  outstanding : s.writes.length = s.writing.toNat
  /-- Bytes that are to be written are being written or have a task queued. -/
  woken : 0 < s.pendingWriteLen → s.writing = true ∨ .write ∈ s.ioQueue
  sent : appendedBytes calls = sentBytes s.trace ++ s.unsent
  order : givenData calls = ranData calls ++ s.queuedData
  handles : s.handleCount = s.workReadCount + s.writing.toNat

/-! ## What a part of the session appends -/

/-- While the session is open, `handle_count_` counts the read tasks and the write. -/
def Counted (s : Session β) : Prop :=
  s.closeFlag = false → s.handleCount = s.workReadCount + s.writing.toNat

/-- A part of the session has appended `data` and posted `posted`. The write under
way is as it was, and a task is queued for what was appended. -/
structure Adds (data : List UInt8) (posted : List (List UInt8)) (s s' : Session β) : Prop where
  unsent : s'.unsent = s.unsent ++ data
  pending : s'.pendingWriteLen = s.pendingWriteLen + data.length
  writing : s'.writing = s.writing
  writes : s'.writes = s.writes
  sent : sentBytes s'.trace = sentBytes s.trace
  queued : s'.queuedData = s.queuedData ++ posted
  waiting : s.ioQueue ⊆ s'.ioQueue
  woken : data ≠ [] → .write ∈ s'.ioQueue
  counted : s.Counted → s'.Counted

theorem Adds.refl (s : Session β) : Adds [] [] s s := by
  constructor <;> simp

theorem Adds.trans {s middle s' : Session β} {data data' : List UInt8}
    {posted posted' : List (List UInt8)} (first : Adds data posted s middle)
    (second : Adds data' posted' middle s') : Adds (data ++ data') (posted ++ posted') s s' where
  unsent := by rw [second.unsent, first.unsent, List.append_assoc]
  pending := by rw [second.pending, first.pending, List.length_append, Nat.add_assoc]
  writing := second.writing.trans first.writing
  writes := second.writes.trans first.writes
  sent := second.sent.trans first.sent
  queued := by rw [second.queued, first.queued, List.append_assoc]
  waiting := List.Subset.trans first.waiting second.waiting
  woken := by
    intro some
    by_cases none : data' = []
    · rw [none, List.append_nil] at some
      exact second.waiting (first.woken some)
    · exact second.woken none
  counted := fun before => second.counted (first.counted before)

theorem note_adds (s : Session β) (event : Event) (silent : sentBytes [event] = []) :
    Adds [] [] s (s.note event) := by
  constructor <;> simp [note, Counted, queuedData, Session.unsent, sentBytes_append, silent]

theorem read_adds (s : Session β) : Adds [] [] s s.read := by
  constructor <;> simp [read, note, Counted, queuedData, Session.unsent, sentBytes]

theorem sentBytes_closing {events : List Event} (closing : events ⊆ closingEvents) :
    sentBytes events = [] := by
  refine List.flatMap_eq_nil_iff.mpr fun event member => ?_
  cases event with
  | sent data => simp [closingEvents] at closing; exact absurd (closing member) (by simp)
  | _ => rfl

omit [QueueBuffer β] in
theorem Ending.sentBytes {s s' : Session β} (ending : Ending s s') :
    sentBytes s'.trace = sentBytes s.trace := by
  obtain ⟨events, tasks, closing, _, rfl⟩ := ending
  simp [sentBytes_append, sentBytes_closing closing]

theorem Ending.adds {s s' : Session β} (ending : Ending s s') : Adds [] [] s s' := by
  have sent := ending.sentBytes
  obtain ⟨events, tasks, _, _, rfl⟩ := ending
  constructor <;> simp_all [Counted, queuedData, Session.unsent]

theorem append_adds {s s' : Session β} {data : List UInt8}
    (done : s.append settings data = some s') : Adds data [] s s' := by
  obtain ⟨writeBuffer, appended, result⟩ := Option.bind_eq_some_iff.mp done
  cases result
  have bytes := QueueBuffer.append_content appended
  have posted : Adds data [] s (postIo { s with
      writeBuffer := writeBuffer
      pendingWriteLen := s.pendingWriteLen + data.length } .write) := by
    constructor <;> simp [postIo, Counted, queuedData, Session.unsent, bytes]
  unfold notifyWrite
  dsimp only
  split
  · have noted := posted.trans (note_adds _ .writeHighWaterMaskHandler rfl)
    simpa using noted
  · exact posted

theorem postWork_adds (s : Session β) (data : List UInt8) :
    Adds [] [data] s (s.postWork (.write data)) := by
  constructor <;> simp [postWork, Counted, queuedData, Session.unsent, WorkTask.data]

theorem close_adds (s : Session β) : Adds [] [] s s.close := by
  have flagged : Adds [] [] s { s with closeFlag := true } := by
    constructor <;> simp [Counted, queuedData, Session.unsent]
  exact flagged.trans (closeIfNecessary_ending _).adds

theorem perform_adds {s s' : Session β} {call : HandlerCall}
    (done : s.perform settings call = some s') :
    Adds (appendedBytes call.writeCalls) (postedData call.writeCalls) s s' := by
  cases call with
  | retrieve len =>
      obtain ⟨⟨readBuffer, invoked⟩, _, result⟩ := Option.bind_eq_some_iff.mp done
      have retrieved : Adds [] [] s { s with readBuffer := readBuffer } := by
        constructor <;> simp [Counted, queuedData, Session.unsent]
      cases invoked with
      | false =>
          cases result
          exact retrieved
      | true =>
          cases result
          exact retrieved.trans (read_adds _)
  | write data =>
      have appended := append_adds done
      simpa [HandlerCall.writeCalls, appendedBytes, postedData] using appended
  | postWrite argument =>
      cases done
      exact postWork_adds s argument.queued
  | close =>
      cases done
      exact close_adds s

theorem performAll_adds {s s' : Session β} {calls : List HandlerCall}
    (done : performAll settings calls s = some s') :
    Adds (appendedBytes (calls.flatMap HandlerCall.writeCalls))
      (postedData (calls.flatMap HandlerCall.writeCalls)) s s' := by
  induction calls generalizing s with
  | nil =>
      cases done
      exact Adds.refl _
  | cons call rest ih =>
      obtain ⟨middle, first, last⟩ := Option.bind_eq_some_iff.mp done
      have whole := (perform_adds first).trans (ih last)
      simpa using whole

/-! ## The bytes behind a step -/

/-- The bytes to write are accounted for behind a run that has made these calls. -/
structure Written (calls : List WriteCall) (s : Session β) : Prop where
  pending : s.pendingWriteLen = s.unsent.length
  given : ∀ data ∈ s.writes, data <+: s.unsent
  sent : appendedBytes calls = sentBytes s.trace ++ s.unsent
  order : postedData calls = ranData calls ++ s.queuedData
  counted : s.Counted

theorem create_written : Written [] (create : Session β) where
  pending := by simp [create, Session.unsent, QueueBuffer.create_content]
  given := by simp [create]
  sent := by simp [create, Session.unsent, QueueBuffer.create_content, appendedBytes, sentBytes]
  order := rfl
  counted := fun _ => rfl

theorem Written.adds {calls more : List WriteCall} {s s' : Session β} {data : List UInt8}
    {posted : List (List UInt8)} (written : Written calls s) (adds : Adds data posted s s')
    (bytes : appendedBytes more = data) (queue : postedData more = posted)
    (none : ranData more = []) : Written (calls ++ more) s' where
  pending := by rw [adds.pending, adds.unsent, List.length_append, written.pending]
  given := by
    intro started member
    rw [adds.writes] at member
    rw [adds.unsent]
    exact (written.given started member).trans (List.prefix_append _ _)
  sent := by rw [appendedBytes_append, adds.sent, adds.unsent, written.sent, bytes,
    List.append_assoc]
  order := by rw [postedData_append, ranData_append, adds.queued, written.order, none, queue,
    List.append_nil, List.append_assoc]
  counted := adds.counted written.counted

/-- A part of the session that appends nothing. -/
theorem Written.still {calls : List WriteCall} {s s' : Session β} (written : Written calls s)
    (adds : Adds [] [] s s') : Written calls s' := by
  have same : Written (calls ++ []) s' := written.adds adds rfl rfl rfl
  rwa [List.append_nil] at same

/-- `write()` gives the unsent bytes to the socket, if there are any and no write
is outstanding. -/
theorem write_written {calls : List WriteCall} {s : Session β} (written : Written calls s) :
    Written calls s.write := by
  unfold write
  split
  · rename_i free
    have idle : s.writing = false := by simp_all
    refine ⟨written.pending, ?_, ?_, written.order, ?_⟩
    · intro data member
      rcases List.mem_append.mp member with before | started
      · exact written.given data before
      · rw [List.mem_singleton.mp started, QueueBuffer.constBuffer_eq]
        exact List.prefix_rfl
    · rw [written.sent]
      simp [note, sentBytes, Session.unsent]
    · intro opened
      have count := written.counted opened
      rw [idle] at count
      exact congrArg (· + 1) count
  · exact written

omit [QueueBuffer β] in
theorem subtract_of_le {count len : Nat} (inside : len ≤ count) :
    subtract count len = count - len := if_pos inside

/-- A write that has sent the first bytes of those that it was given. -/
theorem bytesSent_written {calls : List WriteCall} {s : Session β} {operation length : Nat}
    {data : List UInt8} {writeBuffer : β} {invoked : Bool} (acc : Accounted settings 0 s)
    (written : Written calls s) (outstanding : s.writes[operation]? = some data)
    (inside : length ≤ data.length)
    (retrieved : SessionBuffer.retrieve s.writeBuffer length = some (writeBuffer, invoked)) :
    Written calls ((note { s with writes := s.writes.eraseIdx operation }
      (.sent (data.take length))).bytesSent writeBuffer length) := by
  obtain ⟨writing, none⟩ := acc.writing_of_writes outstanding
  obtain ⟨enough, rest⟩ := QueueBuffer.retrieve_content retrieved
  have covered : length ≤ s.pendingWriteLen := written.pending ▸ enough
  refine ⟨?_, ?_, ?_, written.order, ?_⟩
  · change subtract s.pendingWriteLen length = (QueueBuffer.content writeBuffer).length
    rw [subtract_of_le covered, rest, List.length_drop, written.pending]
    rfl
  · simp [bytesSent, writeEnded, note, none]
  · obtain ⟨behind, split⟩ := written.given data (List.mem_of_getElem? outstanding)
    have first : data.take length = s.unsent.take length := by
      rw [← split, List.take_append_of_le_length inside]
    have trace : sentBytes (s.trace ++ [.sent (data.take length)]) =
        sentBytes s.trace ++ data.take length := by
      simp [sentBytes]
    change appendedBytes calls =
      sentBytes (s.trace ++ [.sent (data.take length)]) ++ QueueBuffer.content writeBuffer
    rw [trace, first, rest, List.append_assoc]
    exact written.sent.trans (congrArg _ (List.take_append_drop length s.unsent).symm)
  · intro opened
    have count := written.counted opened
    change subtract s.handleCount 1 = s.workReadCount + 0
    rw [writing] at count
    exact (congrArg (subtract · 1) count).trans (subtract_of_le (Nat.le_add_left _ _))

theorem writeDone_written {calls : List WriteCall} {s s' : Session β} {operation : Nat}
    {result : Except ErrorCode Nat} (acc : Accounted settings 0 s) (written : Written calls s)
    (step : s.Steps settings (.writeDone operation result) s') : Written calls s' := by
  cases result with
  | error code =>
      obtain ⟨data, outstanding, handled⟩ := step.writeDone_error
      obtain ⟨_, none⟩ := acc.writing_of_writes outstanding
      rcases handleWrite_cases handled with ⟨_, level, _, rfl⟩ | ⟨_, _, _, impossible, _⟩
      · have flagged : Written calls { note (writeEnded
            { s with writes := s.writes.eraseIdx operation }) (.log level) with
            closeFlag := true } := by
          refine ⟨written.pending, ?_, ?_, written.order, fun opened => by cases opened⟩
          · simp [writeEnded, note, none]
          · rw [written.sent]
            simp [writeEnded, note, sentBytes, Session.unsent]
        exact flagged.still (closeAfterLastWrite_ending _).adds
      · cases impossible
  | ok length =>
      obtain ⟨data, outstanding, inside, handled⟩ := step.writeDone_ok
      rcases handleWrite_cases handled with
        ⟨_, _, impossible, _⟩ | ⟨_, writeBuffer, invoked, same, retrieved, how⟩
      · cases impossible
      · cases same
        have sent := bytesSent_written acc written outstanding inside retrieved
        rcases how with ⟨_, rfl⟩ | ⟨_, rfl⟩
        · exact write_written sent
        · exact sent.still (closeAfterLastWrite_ending _).adds

theorem handleRead_adds {s s' : Session β} {result : Except ErrorCode (List UInt8)}
    (done : s.handleRead settings result = some s') : Adds [] [] s s' := by
  rcases handleRead_cases done with
    ⟨code, level, _, rfl⟩ | ⟨data, readBuffer, _, _, ⟨closing, rfl⟩ | ⟨_, resumed, how, rfl⟩⟩
  · have flagged : Adds [] [] s { s.readEnded.note (.log level) with closeFlag := true } := by
      constructor <;> simp [readEnded, note, Counted, queuedData, Session.unsent, sentBytes]
    exact flagged.trans (closeAfterLastRead_ending _).adds
  · have flag : s.closeFlag = true := by simp_all
    have ended : Adds [] [] s { s.readEnded with readBuffer := readBuffer } := by
      constructor <;> simp [readEnded, Counted, queuedData, Session.unsent, flag]
    exact ended.trans (closeAfterLastRead_ending _).adds
  · -- both counters grow together
    have together : s.Counted → s.closeFlag = false →
        s.handleCount + 1 = s.workReadCount + 1 + s.writing.toNat := by
      intro before opened
      rw [before opened, Nat.add_right_comm]
    clear done
    rcases how with ⟨_, rfl⟩ | ⟨_, rfl⟩
    · constructor <;> simp [readEnded, read, note, postWork, queuedData, Session.unsent,
        WorkTask.data, sentBytes]
      exact together
    · constructor <;> simp [readEnded, postWork, queuedData, Session.unsent, WorkTask.data]
      exact together

theorem start_adds {s s' : Session β} {connect : List HandlerCall}
    (done : s.start settings connect = some s') :
    Adds (appendedBytes (connect.flatMap HandlerCall.writeCalls))
      (postedData (connect.flatMap HandlerCall.writeCalls)) s { s' with started := true } := by
  obtain ⟨middle, calls, result⟩ := Option.bind_eq_some_iff.mp done
  cases result
  have connected := (note_adds s .fireConnect rfl).trans (performAll_adds calls)
  have reading := connected.trans (read_adds middle)
  have marked : Adds [] [] middle.read { middle.read with started := true } := by
    constructor <;> simp [Counted, queuedData, Session.unsent]
  simpa using reading.trans marked

theorem fireRead_adds {s s' : Session β} {decode : List HandlerCall}
    (acc : Accounted settings 1 s) (done : s.fireRead settings decode = some s') :
    Adds (appendedBytes (decode.flatMap HandlerCall.writeCalls))
      (postedData (decode.flatMap HandlerCall.writeCalls)) s s' := by
  obtain ⟨middle, calls, result⟩ := Option.bind_eq_some_iff.mp done
  cases result
  have decoded := (note_adds s .fireRead rfl).trans (performAll_adds calls)
  have noted : Accounted settings 1 (s.note .fireRead) :=
    acc.congr (note_keeps s _) (note_notified acc.notified rfl)
  have running : 1 ≤ middle.workReadCount := by
    rw [(performAll_accounted noted calls).work]
    exact Nat.le_add_right _ _
  have counted : Adds [] [] middle { middle with
      handleCount := subtract middle.handleCount 1
      workReadCount := subtract middle.workReadCount 1 } := by
    constructor <;> simp [Counted, queuedData, Session.unsent]
    intro before opened
    rw [before opened, subtract_of_le running,
      subtract_of_le (Nat.le_trans running (Nat.le_add_right _ _)), Nat.sub_add_comm running]
  simpa using (decoded.trans counted).trans (closeIfNecessary_ending _).adds

omit [QueueBuffer β] in
/-- Handlers do not run the tasks that they post. -/
theorem ranData_handlers (calls : List HandlerCall) :
    ranData (calls.flatMap HandlerCall.writeCalls) = [] := by
  induction calls with
  | nil => rfl
  | cons call rest ih =>
      rw [List.flatMap_cons, ranData_append, ih]
      cases call <;> rfl

theorem step_written {calls : List WriteCall} {s s' : Session β} {action : Action}
    (acc : Accounted settings 0 s) (written : Written calls s)
    (step : s.Steps settings action s') : Written (calls ++ s.writeCalls action) s' := by
  cases action with
  | start connect =>
      obtain ⟨_, last, done, rfl⟩ := step.start
      exact written.adds (start_adds done) rfl rfl (ranData_handlers connect)
  | readDone result =>
      obtain ⟨reads, _, done⟩ := step.readDone
      have taken : Written calls { s with reads := reads } :=
        ⟨written.pending, written.given, written.sent, written.order, written.counted⟩
      simpa [writeCalls] using taken.still (handleRead_adds done)
  | writeDone operation result =>
      simpa [writeCalls] using writeDone_written acc written step
  | runIo =>
      obtain ⟨task, rest, _, how⟩ := step.runIo
      have taken : Written calls { s with ioQueue := rest } :=
        ⟨written.pending, written.given, written.sent, written.order, written.counted⟩
      rcases how with ⟨_, rfl⟩ | ⟨_, rfl⟩
      · simpa [writeCalls] using write_written taken
      · simpa [writeCalls] using taken.still (closeTask_ending _).adds
  | runWork decode =>
      obtain ⟨task, rest, queue, ⟨rfl, done⟩ | ⟨data, rfl, done⟩⟩ := step.runWork
      · have taken : Written calls { s with workQueue := rest } := by
          refine ⟨written.pending, written.given, written.sent, ?_, written.counted⟩
          rw [written.order]
          simp [queuedData, queue, WorkTask.data]
        have decoded := taken.adds (fireRead_adds (acc.fireRead_taken queue) done) rfl rfl
          (ranData_handlers decode)
        simpa [writeCalls, queue] using decoded
      · -- the first queued task becomes the last one that has run
        have taken : Written (calls ++ [.run data]) s' := by
          have adds := append_adds done
          refine ⟨?_, ?_, ?_, ?_, adds.counted written.counted⟩
          · rw [adds.pending, adds.unsent, List.length_append]
            exact congrArg (· + data.length) written.pending
          · intro started member
            rw [adds.writes] at member
            rw [adds.unsent]
            exact (written.given started member).trans (List.prefix_append _ _)
          · rw [appendedBytes_append, written.sent, adds.sent, adds.unsent, List.append_assoc]
            simp [appendedBytes, Session.unsent]
          · rw [postedData_append, written.order, adds.queued]
            simp [queuedData, queue, WorkTask.data, postedData, ranData]
        simpa [writeCalls, queue] using taken
  | write data =>
      refine written.adds (append_adds step) ?_ rfl rfl
      simp [writeCalls, appendedBytes]
  | postWrite argument =>
      cases step
      exact written.adds (postWork_adds s argument.queued) rfl rfl rfl
  | close =>
      cases step
      simpa [writeCalls] using written.still (close_adds s)

/-! ## No write is forgotten -/

/-- Bytes that are to be written are being written or have a task queued. -/
def Woken (s : Session β) : Prop :=
  0 < s.pendingWriteLen → s.writing = true ∨ .write ∈ s.ioQueue

theorem Woken.adds {s s' : Session β} {data : List UInt8} {posted : List (List UInt8)}
    (woken : Woken s) (adds : Adds data posted s s') : Woken s' := by
  intro waiting
  by_cases none : data = []
  · rw [adds.pending, none] at waiting
    rw [adds.writing]
    exact (woken waiting).imp_right fun queued => adds.waiting queued
  · exact .inr (adds.woken none)

/-- The write task leaves no byte behind without a write. -/
theorem write_woken (s : Session β) : Woken s.write := by
  unfold write
  split
  · exact fun _ => .inl rfl
  · rename_i idle
    intro waiting
    cases writing : s.writing with
    | true => exact .inl rfl
    | false => exact absurd waiting (by simpa [writing] using idle)

/-- A step keeps the writes going, unless a write fails. -/
theorem step_woken {s s' : Session β} {action : Action} (acc : Accounted settings 0 s)
    (woken : Woken s) (succeeds : ∀ operation code, action ≠ .writeDone operation (.error code))
    (step : s.Steps settings action s') : Woken s' := by
  cases action with
  | start connect =>
      obtain ⟨_, last, done, rfl⟩ := step.start
      exact woken.adds (start_adds done)
  | readDone result =>
      obtain ⟨reads, _, done⟩ := step.readDone
      have taken : Woken { s with reads := reads } := woken
      exact taken.adds (handleRead_adds done)
  | writeDone operation result =>
      cases result with
      | error code => exact absurd rfl (succeeds operation code)
      | ok length =>
          obtain ⟨data, _, _, handled⟩ := step.writeDone_ok
          rcases handleWrite_cases handled with
            ⟨_, _, impossible, _⟩ | ⟨_, writeBuffer, invoked, same, _, how⟩
          · cases impossible
          · cases same
            rcases how with ⟨_, rfl⟩ | ⟨none, rfl⟩
            · exact write_woken _
            · have empty : Woken (bytesSent (note
                  { s with writes := s.writes.eraseIdx operation } (.sent (data.take length)))
                  writeBuffer length) := by
                intro waiting
                exact absurd waiting (Nat.not_lt.mpr (Nat.le_of_eq none))
              exact empty.adds (closeAfterLastWrite_ending _).adds
  | runIo =>
      obtain ⟨task, rest, queue, ⟨_, rfl⟩ | ⟨rfl, rfl⟩⟩ := step.runIo
      · exact write_woken _
      · have taken : Woken { s with ioQueue := rest } := by
          intro waiting
          simpa [queue] using woken waiting
        exact taken.adds (closeTask_ending _).adds
  | runWork decode =>
      obtain ⟨task, rest, queue, ⟨rfl, done⟩ | ⟨data, rfl, done⟩⟩ := step.runWork
      · have taken : Woken { s with workQueue := rest } := woken
        exact taken.adds (fireRead_adds (acc.fireRead_taken queue) done)
      · have taken : Woken { s with workQueue := rest } := woken
        exact taken.adds (append_adds done)
  | write data => exact woken.adds (append_adds step)
  | postWrite argument =>
      cases step
      exact woken.adds (postWork_adds s argument.queued)
  | close =>
      cases step
      exact woken.adds (close_adds s)

theorem writeDone_error_closes {s s' : Session β} {operation : Nat} {code : ErrorCode}
    (step : s.Steps settings (.writeDone operation (.error code)) s') : s'.closeFlag = true := by
  obtain ⟨data, _, handled⟩ := step.writeDone_error
  rcases handleWrite_cases handled with ⟨_, _, _, rfl⟩ | ⟨_, _, _, impossible, _⟩
  · exact (closeAfterLastWrite_ending _).keeps.closeFlag rfl
  · cases impossible

/-- Behind every run. -/
theorem reached_written {actions : List Action} {s : Session β}
    (run : Reached (fun _ _ => True) (Steps settings) create actions s) :
    Accounted settings 0 s ∧ Written (produced (step settings) writeCalls (create : Session β)
      actions) s ∧ (s.closeFlag = false → Woken s) := by
  refine run.history_all (I := fun calls s =>
    Accounted settings 0 s ∧ Written calls s ∧ (s.closeFlag = false → Woken s)) ?_ ?_
  · rintro calls s action s' ⟨acc, written, woken⟩ step
    refine ⟨step_accounted acc step, step_written acc written step, fun opened => ?_⟩
    have before : s.closeFlag = false := by
      cases flag : s.closeFlag with
      | false => rfl
      | true => exact absurd opened (by simp [step_closeFlag step flag])
    refine step_woken acc (woken before) ?_ step
    rintro operation code rfl
    exact absurd opened (by simp [writeDone_error_closes step])
  · refine ⟨create_accounted, create_written, fun _ waiting => ?_⟩
    exact absurd waiting (Nat.lt_irrefl 0)

/-! ## Blocks without room -/

/-- The action makes no block that is too short for its data. -/
def Roomy (s : Session β) (action : Action) : Prop := ∀ call ∈ s.writeCalls action, call.Roomy

omit [QueueBuffer β] in
instance (s : Session β) (action : Action) : Decidable (s.Roomy action) :=
  inferInstanceAs (Decidable (∀ call ∈ s.writeCalls action, call.Roomy))

omit [QueueBuffer β] in
/-- Blocks with room for their data hand on what they were given. -/
theorem givenData_of_roomy {calls : List WriteCall} (roomy : ∀ call ∈ calls, call.Roomy) :
    givenData calls = postedData calls := by
  induction calls with
  | nil => rfl
  | cons call rest ih =>
      have behind := ih fun other member => roomy other (List.mem_cons_of_mem call member)
      cases call with
      | append | run => exact behind
      | post argument =>
          have kept : argument.queued = argument.given :=
            WriteArgument.queued_of_roomy (roomy (.post argument) List.mem_cons_self)
          change argument.given :: givenData rest = argument.queued :: postedData rest
          rw [kept, behind]

theorem reached_roomy {actions : List Action} {s : Session β}
    (run : Reached (fun _ _ => True) (Steps settings) create actions s)
    (roomy : Along (fun _ _ => True) (Steps settings) Roomy (create : Session β) actions) :
    ∀ call ∈ produced (step settings) writeCalls (create : Session β) actions, call.Roomy := by
  have start : ∀ call ∈ ([] : List WriteCall), call.Roomy := fun _ impossible => nomatch impossible
  refine run.history (I := fun (calls : List WriteCall) _ => ∀ call ∈ calls, call.Roomy) ?_ roomy
    start
  intro calls s action s' before meets _ call member
  rcases List.mem_append.mp member with old | new
  · exact before call old
  · exact meets call new

/-- While a session is open it has sent the first bytes of all that was appended,
and the rest is in its write buffer. A write is outstanding or a task is queued
for every rest. In a run without blocks that are too short, what was given to
`write(data)` has been appended or is queued, in the order of the calls. -/
theorem write_path {actions : List Action} {s : Session β}
    (run : Reached (fun _ _ => True) (Steps settings) create actions s)
    (roomy : Along (fun _ _ => True) (Steps settings) Roomy (create : Session β) actions)
    (opened : s.closeFlag = false) :
    WritePath (produced (step settings) writeCalls (create : Session β) actions) s := by
  obtain ⟨acc, written, woken⟩ := reached_written run
  refine ⟨?_, ?_, acc.writes, woken opened, written.sent, ?_, written.counted opened⟩
  · rw [written.pending, QueueBuffer.readableBytes_eq]
    rfl
  · intro data member
    rw [written.pending]
    exact (written.given data member).length_le
  · rw [givenData_of_roomy (reached_roomy run roomy)]
    exact written.order

/-- Another thread writes two bytes, a handler answers with one and posts one
more. The socket takes the first two one at a time. -/
def partialWriteRun : List Action :=
  [.start [], .postWrite (.value [70, 71]), .readDone (.ok [65]), .runWork [], .runIo,
    .runWork [.retrieve 1, .write [66], .postWrite (.block [72] 1 [])], .writeDone 0 (.ok 1),
    .runIo, .writeDone 0 (.ok 1)]

theorem partialWriteRun_path : ∃ s : Session AsioBuffer.LaidOut,
    last (Session.step ⟨0, 0, false, true⟩) create partialWriteRun = some s ∧
      sentBytes s.trace = [70, 71] ∧
      WritePath (produced (Session.step ⟨0, 0, false, true⟩) writeCalls
        (create : Session AsioBuffer.LaidOut) partialWriteRun) s := by
  have runs : (last (Session.step ⟨0, 0, false, true⟩)
      (create : Session AsioBuffer.LaidOut) partialWriteRun).any
      (fun s => sentBytes s.trace = [70, 71] ∧ s.closeFlag = false) = true := by
    decide +kernel
  obtain ⟨s, run, found⟩ := (Option.any_eq_true _ _).mp runs
  obtain ⟨sent, opened⟩ := of_decide_eq_true found
  have roomy : holdsAlong (Session.step ⟨0, 0, false, true⟩) Roomy
      (create : Session AsioBuffer.LaidOut) partialWriteRun = true := by
    decide +kernel
  exact ⟨s, run, sent, write_path (reached_last run) (along_of_holdsAlong roomy) opened⟩

/-- Another thread calls `write(data, len)` with one byte, and the block is made
with no room. -/
def shortBlockRun : List Action := [.postWrite (.block [65] 0 [66]), .runWork []]

/-- The session appends a byte that nobody has given to it. -/
theorem shortBlockRun_not_path :
    ¬ ∀ (settings : Settings) (actions : List Action) (s : Session AsioBuffer.LaidOut),
      Reached (fun _ _ => True) (Steps settings) create actions s → s.closeFlag = false →
      WritePath (produced (step settings) writeCalls (create : Session AsioBuffer.LaidOut)
        actions) s := by
  intro all
  have runs : (last (Session.step ⟨0, 0, false, true⟩)
      (create : Session AsioBuffer.LaidOut) shortBlockRun).any
      (fun s => s.closeFlag = false ∧ s.queuedData = []) = true := by
    decide +kernel
  obtain ⟨s, run, found⟩ := (Option.any_eq_true _ _).mp runs
  obtain ⟨opened, none⟩ := of_decide_eq_true found
  have order := (all _ _ s (reached_last run) opened).order
  rw [none] at order
  exact absurd order (by decide +kernel)

end Session

end FysobEngine.Net
