import FysobEngine.Net.SessionWrite

/-!
# What a closing session has sent

A session that is to close waits for an outstanding write, and the completion of
that write goes on until nothing is left. Bytes whose write task is still queued
are not waited for.
-/

namespace FysobEngine.Net

/-- The calls that make an outstanding operation fail. -/
def Event.interrupts : Event → Bool
  | .shutdown | .cancel | .closeSocket => true
  | _ => false

/-- Whether the last write was outstanding during such a call. -/
def writeInterrupted (trace : List Event) : Bool :=
  trace.foldl (fun interrupted event =>
    match event with
    | .asyncWriteSome _ => false
    | event => interrupted || event.interrupts) false

theorem writeInterrupted_note (trace : List Event) {event : Event}
    (silent : event.interrupts = false) :
    writeInterrupted (trace ++ [event]) = true → writeInterrupted trace = true := by
  unfold writeInterrupted
  rw [List.foldl_append]
  cases event <;> simp_all [Event.interrupts]

namespace Session

open Foundation.Runs

section Definitions

variable {β : Type}

/-- Operations fail because the session itself has closed: a read with
`operation_aborted` or `eof` behind a call that interrupts it, a write during one. -/
def FailsByOwnClose (s : Session β) : Action → Prop
  | .readDone (.error code) =>
      (code = .operationAborted ∨ code = .eof) ∧ s.trace.any Event.interrupts = true
  | .writeDone _ (.error code) =>
      (code = .operationAborted ∨ code = .eof) ∧ writeInterrupted s.trace = true
  | _ => True

instance (s : Session β) (action : Action) : Decidable (s.FailsByOwnClose action) :=
  match action with
  | .readDone (.error _) | .writeDone _ (.error _) => inferInstanceAs (Decidable (_ ∧ _))
  | .start _ | .readDone (.ok _) | .writeDone _ (.ok _) | .runIo | .runWork _ | .write _
  | .postWrite _ | .close => .isTrue trivial

/-- Bytes to send wait for a queued write task. -/
def WriteQueued (s : Session β) : Prop := .write ∈ s.ioQueue ∧ 0 < s.pendingWriteLen

/-- A read completion that closes the socket finds no write task with bytes to
send in the queue, and neither does the task that closes, which finds no
outstanding write either. -/
def ClosesBehindWrites (s : Session β) : Action → Prop
  | .readDone (.ok _) => s.closeFlag = true → s.writing = false → ¬ s.WriteQueued
  | .readDone (.error _) => s.writing = false → ¬ s.WriteQueued
  | .runIo => s.ioQueue.head? = some .close → s.writing = false ∧ ¬ s.WriteQueued
  | _ => True

variable [SessionBuffer β]

/-- A step that is possible, with the failures of `FailsByOwnClose` only. -/
def Happens (settings : Settings) (s : Session β) (action : Action) : Prop :=
  (s.step settings action).isSome = true ∧ s.FailsByOwnClose action

instance (s : Session β) (action : Action) : Decidable (s.Happens settings action) :=
  inferInstanceAs (Decidable (_ ∧ _))

/-- A step that closes the socket leaves no byte to be written. -/
def Flushes (settings : Settings) (s : Session β) (action : Action) : Prop :=
  ∀ s', s.Steps settings action s' →
    s.trace.count .closeSocket < s'.trace.count .closeSocket → s'.pendingWriteLen = 0

end Definitions

/-! ## Parts of a session that leave its socket open -/

section Parts

variable {β : Type} {settings : Settings} [SessionBuffer β]

omit [SessionBuffer β] in
/-- The socket is not closed, and an outstanding write is not interrupted. -/
structure Spares (s s' : Session β) : Prop where
  writing : s'.writing = s.writing
  opened : s'.trace.count .closeSocket = s.trace.count .closeSocket
  uninterrupted : s.writing = true → writeInterrupted s'.trace = true →
    writeInterrupted s.trace = true

omit [SessionBuffer β] in
theorem Spares.refl (s : Session β) : Spares s s := ⟨rfl, rfl, fun _ => id⟩

omit [SessionBuffer β] in
theorem Spares.trans {s middle s' : Session β} (first : Spares s middle)
    (second : Spares middle s') : Spares s s' where
  writing := second.writing.trans first.writing
  opened := second.opened.trans first.opened
  uninterrupted := fun busy interrupted =>
    first.uninterrupted busy (second.uninterrupted (first.writing.trans busy) interrupted)

omit [SessionBuffer β] in
theorem note_spares (s : Session β) (event : Event) (silent : event.interrupts = false) :
    Spares s (s.note event) where
  writing := rfl
  opened := by
    rw [count_note]
    cases event <;> first | rfl | cases silent
  uninterrupted := fun _ => writeInterrupted_note s.trace silent

omit [SessionBuffer β] in
theorem read_spares (s : Session β) : Spares s s.read :=
  ⟨rfl, (note_spares s .asyncReadSome rfl).opened,
    (note_spares s .asyncReadSome rfl).uninterrupted⟩

omit [SessionBuffer β] in
theorem closeIfNecessary_spares (s : Session β) : Spares s s.closeIfNecessary := by
  unfold closeIfNecessary
  split
  · rename_i closing
    have idle : s.writing = false := by simp_all
    split
    · refine ⟨rfl, by simp, fun busy => ?_⟩
      rw [idle] at busy
      cases busy
    · exact ⟨rfl, rfl, fun _ => id⟩
  · exact Spares.refl s

omit [SessionBuffer β] in
theorem close_spares (s : Session β) : Spares s s.close := by
  have flagged : Spares s { s with closeFlag := true } := ⟨rfl, rfl, fun _ => id⟩
  exact flagged.trans (closeIfNecessary_spares _)

theorem append_spares {s s' : Session β} {data : List UInt8}
    (done : s.append settings data = some s') : Spares s s' := by
  obtain ⟨writeBuffer, _, result⟩ := Option.bind_eq_some_iff.mp done
  cases result
  have posted : Spares s (postIo { s with
      writeBuffer := writeBuffer
      pendingWriteLen := s.pendingWriteLen + data.length } .write) :=
    ⟨rfl, rfl, fun _ => id⟩
  unfold notifyWrite
  dsimp only
  split
  · exact posted.trans (note_spares _ _ rfl)
  · exact posted

theorem perform_spares {s s' : Session β} {call : HandlerCall}
    (done : s.perform settings call = some s') : Spares s s' := by
  cases call with
  | retrieve len =>
      obtain ⟨⟨readBuffer, invoked⟩, _, result⟩ := Option.bind_eq_some_iff.mp done
      have retrieved : Spares s { s with readBuffer := readBuffer } := ⟨rfl, rfl, fun _ => id⟩
      cases invoked with
      | false =>
          cases result
          exact retrieved
      | true =>
          cases result
          exact retrieved.trans (read_spares _)
  | write data => exact append_spares done
  | postWrite argument =>
      cases done
      exact ⟨rfl, rfl, fun _ => id⟩
  | close =>
      cases done
      exact close_spares s

theorem performAll_spares {s s' : Session β} {calls : List HandlerCall}
    (done : performAll settings calls s = some s') : Spares s s' := by
  induction calls generalizing s with
  | nil =>
      cases done
      exact Spares.refl _
  | cons call rest ih =>
      obtain ⟨middle, first, last⟩ := Option.bind_eq_some_iff.mp done
      exact (perform_spares first).trans (ih last)

theorem start_spares {s s' : Session β} {connect : List HandlerCall}
    (done : s.start settings connect = some s') : Spares s { s' with started := true } := by
  obtain ⟨middle, calls, result⟩ := Option.bind_eq_some_iff.mp done
  cases result
  have connected := (note_spares s .fireConnect rfl).trans (performAll_spares calls)
  have marked : Spares middle.read { middle.read with started := true } := ⟨rfl, rfl, fun _ => id⟩
  exact (connected.trans (read_spares middle)).trans marked

theorem fireRead_spares {s s' : Session β} {decode : List HandlerCall}
    (done : s.fireRead settings decode = some s') : Spares s s' := by
  obtain ⟨middle, calls, result⟩ := Option.bind_eq_some_iff.mp done
  cases result
  have decoded := (note_spares s .fireRead rfl).trans (performAll_spares calls)
  have counted : Spares middle { middle with
      handleCount := subtract middle.handleCount 1
      workReadCount := subtract middle.workReadCount 1 } := ⟨rfl, rfl, fun _ => id⟩
  exact (decoded.trans counted).trans (closeIfNecessary_spares _)

/-! ## The steps that close the socket -/

omit [SessionBuffer β] in
theorem closeTask_closes (s : Session β) :
    s.trace.count .closeSocket < (s.closeTask settings).trace.count .closeSocket := by
  unfold closeTask notifyClosed
  dsimp only
  split <;> simp

omit [SessionBuffer β] in
theorem closeAfterLastRead_closed {s : Session β}
    (closing : (s.closeFlag && !s.writing) = true) :
    s.trace.count .closeSocket < (s.closeAfterLastRead settings).1.trace.count .closeSocket := by
  unfold closeAfterLastRead
  rw [if_pos closing]
  dsimp only
  split
  · exact closeTask_closes s
  · simp

/-- A read completion that closes. -/
def ClosesRead (s : Session β) (result : Except ErrorCode (List UInt8)) : Prop :=
  s.writing = false ∧ (s.closeFlag = true ∨ ∃ code, result = .error code)

theorem handleRead_closes {s s' : Session β} {result : Except ErrorCode (List UInt8)}
    (closes : s.ClosesRead result) (done : s.handleRead settings result = some s') :
    s.trace.count .closeSocket < s'.trace.count .closeSocket := by
  obtain ⟨idle, why⟩ := closes
  rcases handleRead_cases done with
    ⟨code, level, _, rfl⟩ | ⟨data, readBuffer, rfl, _, ⟨closing, rfl⟩ | ⟨waits, _⟩⟩
  · have logged := (note_spares s.readEnded (.log level) rfl).opened
    refine Nat.lt_of_le_of_lt (Nat.le_of_eq logged.symm) ?_
    exact closeAfterLastRead_closed
      (s := { s.readEnded.note (.log level) with closeFlag := true })
      (by simp [readEnded, note, idle])
  · exact closeAfterLastRead_closed (s := { s.readEnded with readBuffer := readBuffer }) closing
  · rcases why with flag | ⟨_, impossible⟩
    · rw [flag, idle] at waits
      cases waits
    · cases impossible

theorem handleRead_spares {s s' : Session β} {result : Except ErrorCode (List UInt8)}
    (waits : ¬ s.ClosesRead result) (done : s.handleRead settings result = some s') :
    Spares s s' := by
  rcases handleRead_cases done with
    ⟨code, level, rfl, rfl⟩ |
      ⟨data, readBuffer, rfl, _, ⟨closing, _⟩ | ⟨_, _, ⟨_, rfl⟩ | ⟨_, rfl⟩, rfl⟩⟩
  · have busy : s.writing = true := by
      cases writing : s.writing with
      | true => rfl
      | false => exact absurd ⟨writing, .inr ⟨code, rfl⟩⟩ waits
    rw [closeAfterLastRead_waits (by simp [readEnded, note, busy])]
    have logged := note_spares s.readEnded (.log level) rfl
    exact ⟨rfl, logged.opened, logged.uninterrupted⟩
  · rw [Bool.and_eq_true, Bool.not_eq_true'] at closing
    exact absurd ⟨closing.2, .inl closing.1⟩ waits
  · have read := read_spares { s.readEnded with readBuffer := readBuffer }
    exact ⟨rfl, read.opened, read.uninterrupted⟩
  · exact ⟨rfl, rfl, fun _ => id⟩

end Parts

/-! ## Runs that flush -/

variable {β : Type} {settings : Settings} [QueueBuffer β]

/-- An outstanding write has bytes to send, and nothing has interrupted it. -/
def Undisturbed (s : Session β) : Prop :=
  s.writing = true → 0 < s.pendingWriteLen ∧ writeInterrupted s.trace = false

theorem Undisturbed.spares {s s' : Session β} {data : List UInt8} {posted : List (List UInt8)}
    (undisturbed : Undisturbed s) (adds : Adds data posted s s') (spares : Spares s s') :
    Undisturbed s' := by
  intro writing
  have busy : s.writing = true := adds.writing.symm.trans writing
  obtain ⟨waiting, silent⟩ := undisturbed busy
  constructor
  · rw [adds.pending]
    exact Nat.lt_of_lt_of_le waiting (Nat.le_add_right _ _)
  · cases interrupted : writeInterrupted s'.trace with
    | false => rfl
    | true => exact (spares.uninterrupted busy interrupted).symm.trans silent

omit [QueueBuffer β] in
theorem undisturbed_of_idle {s : Session β} (idle : s.writing = false) : Undisturbed s := by
  intro writing
  rw [idle] at writing
  cases writing

theorem write_undisturbed {s : Session β} (undisturbed : Undisturbed s) :
    Undisturbed s.write := by
  unfold write
  split
  · rename_i free
    rw [Bool.and_eq_true, decide_eq_true_eq] at free
    refine fun _ => ⟨free.2, ?_⟩
    simp [note, writeInterrupted]
  · exact undisturbed

/-- While no write is interrupted none fails. -/
theorem succeeds_of_undisturbed {s s' : Session β} {action : Action}
    (acc : Accounted settings 0 s) (undisturbed : Undisturbed s) (fails : s.FailsByOwnClose action)
    (step : s.Steps settings action s') (operation : Nat) (code : ErrorCode) :
    action ≠ .writeDone operation (.error code) := by
  rintro rfl
  obtain ⟨data, outstanding, _⟩ := step.writeDone_error
  have silent := (undisturbed (acc.writing_of_writes outstanding).1).2
  rw [fails.2] at silent
  cases silent

theorem step_undisturbed {s s' : Session β} {action : Action} (acc : Accounted settings 0 s)
    (undisturbed : Undisturbed s)
    (succeeds : ∀ operation code, action ≠ .writeDone operation (.error code))
    (behind : s.ClosesBehindWrites action) (step : s.Steps settings action s') :
    Undisturbed s' := by
  cases action with
  | start connect =>
      obtain ⟨_, last, done, rfl⟩ := step.start
      exact undisturbed.spares (start_adds done) (start_spares done)
  | readDone result =>
      obtain ⟨reads, _, done⟩ := step.readDone
      by_cases closes : ClosesRead { s with reads := reads } result
      · exact undisturbed_of_idle ((handleRead_adds done).writing.trans closes.1)
      · have taken : Undisturbed { s with reads := reads } := undisturbed
        exact taken.spares (handleRead_adds done) (handleRead_spares closes done)
  | writeDone operation result =>
      cases result with
      | error code => exact absurd rfl (succeeds operation code)
      | ok length =>
          obtain ⟨data, _, _, handled⟩ := step.writeDone_ok
          rcases handleWrite_cases handled with
            ⟨_, _, impossible, _⟩ | ⟨_, writeBuffer, _, _, _, how⟩
          · cases impossible
          · rcases how with ⟨_, rfl⟩ | ⟨_, rfl⟩
            · exact write_undisturbed (undisturbed_of_idle rfl)
            · exact undisturbed_of_idle (closeAfterLastWrite_ending _).keeps.writing
  | runIo =>
      obtain ⟨task, rest, queue, ⟨_, rfl⟩ | ⟨rfl, rfl⟩⟩ := step.runIo
      · have taken : Undisturbed { s with ioQueue := rest } := undisturbed
        exact write_undisturbed taken
      · have idle : s.writing = false := (behind (by rw [queue, List.head?_cons])).1
        exact undisturbed_of_idle ((closeTask_ending _).keeps.writing.trans idle)
  | runWork decode =>
      obtain ⟨task, rest, queue, ⟨rfl, done⟩ | ⟨data, rfl, done⟩⟩ := step.runWork
      · have taken : Undisturbed { s with workQueue := rest } := undisturbed
        exact taken.spares (fireRead_adds (acc.fireRead_taken queue) done) (fireRead_spares done)
      · have taken : Undisturbed { s with workQueue := rest } := undisturbed
        exact taken.spares (append_adds done) (append_spares done)
  | write data => exact undisturbed.spares (append_adds step) (append_spares step)
  | postWrite argument =>
      cases step
      exact undisturbed.spares (postWork_adds s argument.queued) ⟨rfl, rfl, fun _ => id⟩
  | close =>
      cases step
      exact undisturbed.spares (close_adds s) (close_spares s)

/-- What holds while every step that closes the socket finds nothing to send. -/
structure Flowing (settings : Settings) (s : Session β) : Prop where
  accounted : Accounted settings 0 s
  woken : Woken s
  undisturbed : Undisturbed s

theorem Flowing.nothing_left {s : Session β} (flowing : Flowing settings s)
    (idle : s.writing = false) (none : ¬ s.WriteQueued) : s.pendingWriteLen = 0 := by
  rcases Nat.eq_zero_or_pos s.pendingWriteLen with empty | waiting
  · exact empty
  · rcases flowing.woken waiting with busy | queued
    · rw [idle] at busy
      cases busy
    · exact absurd ⟨queued, waiting⟩ none

omit [QueueBuffer β] in
theorem not_queued {s : Session β} (empty : s.pendingWriteLen = 0) : ¬ s.WriteQueued :=
  fun queued => absurd queued.2 (by simp [empty])

omit [QueueBuffer β] in
theorem closesBehindWrites_readDone {s : Session β} {result : Except ErrorCode (List UInt8)} :
    s.ClosesBehindWrites (.readDone result) ↔ (s.ClosesRead result → ¬ s.WriteQueued) := by
  cases result with
  | ok data =>
      constructor
      · rintro behind ⟨idle, flag | ⟨_, impossible⟩⟩
        · exact behind flag idle
        · cases impossible
      · exact fun behind flag idle => behind ⟨idle, .inl flag⟩
  | error code =>
      constructor
      · exact fun behind closes => behind closes.1
      · exact fun behind idle => behind ⟨idle, .inr ⟨code, rfl⟩⟩

/-- A step leaves nothing to send when it closes the socket, or spares it. -/
theorem flushes_of_opened {s : Session β} {action : Action}
    (opened : ∀ s', s.Steps settings action s' →
      s'.trace.count .closeSocket = s.trace.count .closeSocket) :
    s.Flushes settings action :=
  fun s' step closes => absurd closes (Nat.not_lt.mpr (Nat.le_of_eq (opened s' step)))

theorem write_opened (s : Session β) :
    s.write.trace.count .closeSocket = s.trace.count .closeSocket := by
  unfold write
  split
  · exact count_note s _ _
  · rfl

theorem flushes_readDone {s s' : Session β} {result : Except ErrorCode (List UInt8)}
    (flowing : Flowing settings s) (step : s.Steps settings (.readDone result) s') :
    s.Flushes settings (.readDone result) ↔ s.ClosesBehindWrites (.readDone result) := by
  rw [closesBehindWrites_readDone]
  constructor
  · intro flushes closes
    obtain ⟨reads, _, done⟩ := step.readDone
    have closed := handleRead_closes (s := { s with reads := reads }) closes done
    have empty := flushes s' step closed
    rw [(handleRead_adds done).pending] at empty
    exact not_queued empty
  · intro behind last step closed
    obtain ⟨reads, _, done⟩ := Steps.readDone step
    by_cases closes : s.ClosesRead result
    · rw [(handleRead_adds done).pending]
      exact flowing.nothing_left closes.1 (behind closes)
    · have opened := (handleRead_spares (s := { s with reads := reads }) closes done).opened
      exact absurd closed (Nat.not_lt.mpr (Nat.le_of_eq opened))

/-- Only the session that has sent everything closes here. -/
theorem flushes_writeDone {s : Session β} {operation : Nat} {result : Except ErrorCode Nat}
    (flowing : Flowing settings s) (fails : s.FailsByOwnClose (.writeDone operation result)) :
    s.Flushes settings (.writeDone operation result) := by
  intro last step closed
  cases result with
  | error code =>
      exact absurd rfl (succeeds_of_undisturbed flowing.accounted flowing.undisturbed fails
        step operation code)
  | ok length =>
      obtain ⟨data, _, _, handled⟩ := Steps.writeDone_ok step
      rcases handleWrite_cases handled with
        ⟨_, _, impossible, _⟩ | ⟨_, writeBuffer, _, _, _, how⟩
      · cases impossible
      · rcases how with ⟨_, rfl⟩ | ⟨empty, rfl⟩
        · rw [write_opened] at closed
          exact absurd closed (by simp [bytesSent, writeEnded, note])
        · rw [(closeAfterLastWrite_ending _).adds.pending]
          exact empty

theorem flushes_runIo {s s' : Session β} (flowing : Flowing settings s)
    (step : s.Steps settings .runIo s') :
    s.Flushes settings .runIo ↔ s.ClosesBehindWrites .runIo := by
  constructor
  · intro flushes first
    obtain ⟨task, rest, queue, ⟨rfl, _⟩ | ⟨_, rfl⟩⟩ := step.runIo
    · rw [queue] at first
      cases first
    · have empty := flushes _ step (closeTask_closes { s with ioQueue := rest })
      rw [(closeTask_ending _).adds.pending] at empty
      refine ⟨?_, not_queued empty⟩
      cases writing : s.writing with
      | false => rfl
      | true =>
          have waiting := (flowing.undisturbed writing).1
          exact absurd waiting (Nat.not_lt.mpr (Nat.le_of_eq empty))
  · intro behind last step closed
    obtain ⟨task, rest, queue, ⟨rfl, rfl⟩ | ⟨rfl, rfl⟩⟩ := Steps.runIo step
    · rw [write_opened] at closed
      exact absurd closed (Nat.lt_irrefl _)
    · obtain ⟨idle, none⟩ := behind (by rw [queue, List.head?_cons])
      rw [(closeTask_ending _).adds.pending]
      exact flowing.nothing_left idle none

/-- A possible step flushes if and only if it closes behind the queued writes. -/
theorem flushes_iff {s : Session β} {action : Action} (flowing : Flowing settings s)
    (happens : s.Happens settings action) :
    s.Flushes settings action ↔ s.ClosesBehindWrites action := by
  obtain ⟨some, fails⟩ := happens
  obtain ⟨s', step⟩ := Option.isSome_iff_exists.mp some
  cases action with
  | start connect =>
      refine iff_of_true (flushes_of_opened fun s' step => ?_) trivial
      obtain ⟨_, last, done, rfl⟩ := Steps.start step
      exact (start_spares done).opened
  | readDone result => exact flushes_readDone flowing step
  | writeDone operation result => exact iff_of_true (flushes_writeDone flowing fails) trivial
  | runIo => exact flushes_runIo flowing step
  | runWork decode =>
      refine iff_of_true (flushes_of_opened fun s' step => ?_) trivial
      obtain ⟨task, rest, _, ⟨_, done⟩ | ⟨data, _, done⟩⟩ := Steps.runWork step
      · exact (fireRead_spares done).opened
      · exact (append_spares done).opened
  | write data =>
      exact iff_of_true (flushes_of_opened fun s' step => (append_spares step).opened) trivial
  | postWrite argument =>
      refine iff_of_true (flushes_of_opened fun s' step => ?_) trivial
      cases step
      rfl
  | close =>
      refine iff_of_true (flushes_of_opened fun s' step => ?_) trivial
      cases step
      exact (close_spares s).opened

theorem create_flowing : Flowing settings (create : Session β) where
  accounted := create_accounted
  woken := fun waiting => absurd waiting (Nat.lt_irrefl 0)
  undisturbed := undisturbed_of_idle rfl

theorem step_flowing {s s' : Session β} {action : Action} (flowing : Flowing settings s)
    (happens : s.Happens settings action) (behind : s.ClosesBehindWrites action)
    (step : s.Steps settings action s') : Flowing settings s' := by
  have succeeds := succeeds_of_undisturbed flowing.accounted flowing.undisturbed happens.2 step
  exact ⟨step_accounted flowing.accounted step,
    step_woken flowing.accounted flowing.woken succeeds step,
    step_undisturbed flowing.accounted flowing.undisturbed succeeds behind step⟩

/-- A run whose operations fail by the session's own close only closes the socket
with nothing left to write if and only if it never does so before a queued write
task with bytes to send, nor from the posted task during a write. Where nothing
is left to write the socket has been given every byte that was appended. -/
theorem flushed_iff {actions : List Action} :
    (Along (Happens settings) (Steps settings) (Flushes settings) (create : Session β) actions ↔
      Along (Happens settings) (Steps settings) ClosesBehindWrites (create : Session β)
        actions) ∧
      ∀ s, Reached (Happens settings) (Steps settings) (create : Session β) actions s →
        s.pendingWriteLen = 0 →
        sentBytes s.trace =
          appendedBytes (produced (step settings) writeCalls (create : Session β) actions) := by
  constructor
  · refine along_congr (I := Flowing settings) ?_ ?_ create_flowing actions
    · exact fun s a flowing happens => flushes_iff flowing happens
    · intro s a s' flowing happens flushes step
      exact step_flowing flowing happens ((flushes_iff flowing happens).mp flushes) step
  · intro s run empty
    obtain ⟨_, written, _⟩ := reached_written (run.mono fun _ _ _ => trivial)
    rw [written.pending, List.length_eq_zero_iff] at empty
    rw [written.sent, empty, List.append_nil]

/-- A peer sends a byte, the handler answers and closes, and the next byte of the
peer arrives before the write task of the answer has run. -/
def answerAndCloseRun : List Action :=
  [.start [], .readDone (.ok [65]), .runWork [.retrieve 1, .write [66], .close]]

theorem answerAndCloseRun_not_flushed :
    ¬ ∀ (settings : Settings) (actions : List Action),
      Along (Happens settings) (Steps settings) (Flushes settings)
        (create : Session AsioBuffer.LaidOut) actions := by
  intro all
  have happened : holdsAlong (Session.step ⟨0, 0, false, true⟩) (Happens ⟨0, 0, false, true⟩)
      (create : Session AsioBuffer.LaidOut) answerAndCloseRun = true := by
    decide +kernel
  have runs : (last (Session.step ⟨0, 0, false, true⟩)
      (create : Session AsioBuffer.LaidOut) answerAndCloseRun).any (fun s =>
        s.Happens ⟨0, 0, false, true⟩ (.readDone (.ok [67])) ∧
          (s.step ⟨0, 0, false, true⟩ (.readDone (.ok [67]))).any (fun s' =>
            s.trace.count .closeSocket < s'.trace.count .closeSocket ∧ s'.pendingWriteLen = 1)) =
        true := by
    decide +kernel
  obtain ⟨s, run, found⟩ := (Option.any_eq_true _ _).mp runs
  obtain ⟨happens, closing⟩ := of_decide_eq_true found
  obtain ⟨s', step, closed⟩ := (Option.any_eq_true _ _).mp closing
  have flushes : s.Flushes ⟨0, 0, false, true⟩ (.readDone (.ok [67])) :=
    (all _ (answerAndCloseRun ++ [.readDone (.ok [67])])).behind
      (reached_of_holdsAlong happened run) happens
  obtain ⟨closes, lost⟩ := of_decide_eq_true closed
  have empty := flushes s' step closes
  rw [lost] at empty
  cases empty

end Session

end FysobEngine.Net
