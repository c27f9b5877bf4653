import FysobEngine.Net.Session

/-!
# The bookkeeping of a session

The flags and counters of a session say which operations are outstanding and
how many read tasks are queued. This holds in every state, whatever the
handlers do and in whatever order the operations complete.
-/

namespace FysobEngine.Net

/-- The events that tell a handler or the owner of the end. -/
def Event.notifies : Event → Bool
  | .fireClosed | .closeHandler => true
  | _ => false

namespace Session

variable {β : Type} {settings : Settings}

/-! ## What closing and writing leave alone -/

/-- Everything but the buffer to write, its length, the flag to close, the tasks
of the socket and the trace. -/
structure Keeps (s s' : Session β) : Prop where
  readBuffer : s'.readBuffer = s.readBuffer
  reading : s'.reading = s.reading
  writing : s'.writing = s.writing
  workReadCount : s'.workReadCount = s.workReadCount
  closeFlag : s.closeFlag = true → s'.closeFlag = true
  started : s'.started = s.started
  reads : s'.reads = s.reads
  writes : s'.writes = s.writes
  workQueue : s'.workQueue = s.workQueue

theorem Keeps.trans {s middle s' : Session β} (first : Keeps s middle)
    (second : Keeps middle s') : Keeps s s' where
  readBuffer := second.readBuffer.trans first.readBuffer
  reading := second.reading.trans first.reading
  writing := second.writing.trans first.writing
  workReadCount := second.workReadCount.trans first.workReadCount
  closeFlag := fun flag => second.closeFlag (first.closeFlag flag)
  started := second.started.trans first.started
  reads := second.reads.trans first.reads
  writes := second.writes.trans first.writes
  workQueue := second.workQueue.trans first.workQueue

theorem note_keeps (s : Session β) (event : Event) : Keeps s (s.note event) := by
  constructor <;> simp [note]

/-! ## What closing does -/

/-- The events of a session that closes. -/
def closingEvents : List Event :=
  [.shutdown, .cancel, .closeSocket, .fireClosed, .closeHandler]

/-- Closing notes events and posts the task that closes. -/
def Ending (s s' : Session β) : Prop :=
  ∃ events tasks, events ⊆ closingEvents ∧ tasks ⊆ [IoTask.close] ∧
    s' = { s with trace := s.trace ++ events, ioQueue := s.ioQueue ++ tasks }

theorem Ending.refl (s : Session β) : Ending s s :=
  ⟨[], [], by simp, by simp, by simp⟩

theorem Ending.trans {s middle s' : Session β} (first : Ending s middle)
    (second : Ending middle s') : Ending s s' := by
  obtain ⟨events, tasks, closing, posted, rfl⟩ := first
  obtain ⟨events', tasks', closing', posted', rfl⟩ := second
  refine ⟨events ++ events', tasks ++ tasks', ?_, ?_, by simp⟩
  · exact List.append_subset.mpr ⟨closing, closing'⟩
  · exact List.append_subset.mpr ⟨posted, posted'⟩

theorem Ending.keeps {s s' : Session β} (ending : Ending s s') : Keeps s s' := by
  obtain ⟨events, tasks, _, _, rfl⟩ := ending
  constructor <;> simp

theorem note_ending (s : Session β) {event : Event} (closing : event ∈ closingEvents) :
    Ending s (s.note event) :=
  ⟨[event], [], by simpa using closing, by simp, by simp [note]⟩

theorem notifyClosed_ending (s : Session β) : Ending s (s.notifyClosed settings) := by
  unfold notifyClosed
  dsimp only
  split
  · exact (note_ending s (by decide)).trans (note_ending _ (by decide))
  · exact note_ending s (by decide)

theorem closeTask_ending (s : Session β) : Ending s (s.closeTask settings) :=
  ((note_ending s (by decide)).trans (note_ending _ (by decide))).trans (notifyClosed_ending _)

theorem closeAfterLastRead_ending (s : Session β) :
    Ending s (s.closeAfterLastRead settings).1 := by
  unfold closeAfterLastRead
  dsimp only
  split
  · split
    · exact closeTask_ending s
    · exact (note_ending s (by decide)).trans (note_ending _ (by decide))
  · exact Ending.refl s

theorem closeAfterLastWrite_ending (s : Session β) :
    Ending s (s.closeAfterLastWrite settings) := by
  unfold closeAfterLastWrite
  dsimp only
  split
  · split
    · split
      · exact closeTask_ending s
      · exact (note_ending s (by decide)).trans (note_ending _ (by decide))
    · exact note_ending s (by decide)
  · exact Ending.refl s

theorem closeIfNecessary_ending (s : Session β) : Ending s s.closeIfNecessary := by
  unfold closeIfNecessary
  split
  · split
    · exact note_ending s (by decide)
    · exact ⟨[], [.close], by simp, by simp, by simp [postIo]⟩
  · exact Ending.refl s

theorem close_keeps (s : Session β) : Keeps s s.close :=
  Keeps.trans (by constructor <;> simp) (closeIfNecessary_ending _).keeps

/-! ## The close handler follows `fire_closed` -/

/-- The close handler is called as often as `fire_closed`, if one is set. -/
def Notified (settings : Settings) (s : Session β) : Prop :=
  s.trace.count .closeHandler = if settings.closeHandler then s.trace.count .fireClosed else 0

@[simp] theorem count_note (s : Session β) (event other : Event) :
    (s.note event).trace.count other =
      s.trace.count other + if event = other then 1 else 0 := by
  simp [note, List.count_append, List.count_singleton]

theorem note_notified {s : Session β} {event : Event} (before : Notified settings s)
    (silent : event.notifies = false) : Notified settings (s.note event) := by
  have closed : event ≠ .fireClosed := by
    rintro rfl
    cases silent
  have handler : event ≠ .closeHandler := by
    rintro rfl
    cases silent
  simpa [Notified, closed, handler] using before

theorem notifyClosed_notified {s : Session β} (before : Notified settings s) :
    Notified settings (s.notifyClosed settings) := by
  unfold Notified notifyClosed at *
  cases set : settings.closeHandler with
  | false => simpa [set] using before
  | true => simpa [set] using before

theorem closeTask_notified {s : Session β} (before : Notified settings s) :
    Notified settings (s.closeTask settings) :=
  notifyClosed_notified
    (note_notified (note_notified before rfl) rfl)

theorem closeAfterLastRead_notified {s : Session β} (before : Notified settings s) :
    Notified settings (s.closeAfterLastRead settings).1 := by
  unfold closeAfterLastRead
  dsimp only
  split
  · split
    · exact closeTask_notified before
    · exact note_notified (note_notified before rfl) rfl
  · exact before

theorem closeAfterLastWrite_notified {s : Session β} (before : Notified settings s) :
    Notified settings (s.closeAfterLastWrite settings) := by
  unfold closeAfterLastWrite
  dsimp only
  split
  · split
    · split
      · exact closeTask_notified before
      · exact note_notified (note_notified before rfl) rfl
    · exact note_notified before rfl
  · exact before

theorem closeIfNecessary_notified {s : Session β} (before : Notified settings s) :
    Notified settings s.closeIfNecessary := by
  unfold closeIfNecessary
  split
  · split
    · exact note_notified before rfl
    · exact before
  · exact before

variable [SessionBuffer β]

theorem notifyWrite_keeps (s : Session β) (length : Nat) :
    Keeps s (s.notifyWrite settings length) := by
  unfold notifyWrite
  dsimp only
  split
  · constructor <;> simp [note, postIo]
  · constructor <;> simp [postIo]

theorem append_keeps {s s' : Session β} {data : List UInt8}
    (done : s.append settings data = some s') : Keeps s s' := by
  obtain ⟨writeBuffer, _, result⟩ := Option.bind_eq_some_iff.mp done
  cases result
  exact Keeps.trans (by constructor <;> simp) (notifyWrite_keeps _ _)

theorem append_notified {s s' : Session β} {data : List UInt8}
    (done : s.append settings data = some s') (before : Notified settings s) :
    Notified settings s' := by
  obtain ⟨writeBuffer, _, result⟩ := Option.bind_eq_some_iff.mp done
  cases result
  unfold notifyWrite
  dsimp only
  split
  · exact note_notified before rfl
  · exact before

/-! ## The bookkeeping -/

/-- The fields say what is outstanding, next to `running` read tasks that have
left the queue and not yet ended. -/
structure Accounted (settings : Settings) (running : Nat) (s : Session β) : Prop where
  reads : s.reads = s.reading.toNat
  writes : s.writes.length = s.writing.toNat
  work : s.workReadCount = running + s.workQueue.count .fireRead
  armed : SessionBuffer.armed s.readBuffer = true → s.reading = false
  unstarted : s.started = false →
    s.reading = false ∧ SessionBuffer.armed s.readBuffer = false ∧ s.workReadCount = 0
  notified : Notified settings s

theorem Accounted.congr {running : Nat} {s s' : Session β} (acc : Accounted settings running s)
    (keeps : Keeps s s') (notified : Notified settings s') : Accounted settings running s' where
  reads := by rw [keeps.reads, keeps.reading, acc.reads]
  writes := by rw [keeps.writes, keeps.writing, acc.writes]
  work := by rw [keeps.workReadCount, keeps.workQueue, acc.work]
  armed := by
    rw [keeps.readBuffer, keeps.reading]
    exact acc.armed
  unstarted := by
    rw [keeps.started, keeps.reading, keeps.readBuffer, keeps.workReadCount]
    exact acc.unstarted
  notified := notified

theorem create_accounted : Accounted settings 0 (create : Session β) where
  reads := rfl
  writes := rfl
  work := rfl
  armed := fun _ => rfl
  unstarted := fun _ => ⟨rfl, SessionBuffer.create_armed, rfl⟩
  notified := by simp [Notified, create]

/-- A read is started where none is outstanding and no handler waits. -/
theorem read_accounted {running : Nat} {s : Session β} (acc : Accounted settings running s)
    (idle : s.reading = false) (unarmed : SessionBuffer.armed s.readBuffer = false)
    (started : s.started = true) : Accounted settings running s.read where
  reads := by simp [read, note, acc.reads, idle]
  writes := acc.writes
  work := acc.work
  armed := by simp [read, note, unarmed]
  unstarted := by simp [read, note, started]
  notified := note_notified acc.notified rfl

theorem retrieve_accounted {running len : Nat} {s s' : Session β}
    (acc : Accounted settings running s) (done : s.retrieve len = some s') :
    Accounted settings running s' := by
  obtain ⟨⟨readBuffer, invoked⟩, retrieved, result⟩ := Option.bind_eq_some_iff.mp done
  obtain ⟨before, after⟩ := SessionBuffer.retrieve_armed retrieved
  have base : Accounted settings running { s with readBuffer := readBuffer } := by
    refine ⟨acc.reads, acc.writes, acc.work, ?_, ?_, acc.notified⟩
    · intro armed
      exact acc.armed (by simp_all)
    · intro fresh
      obtain ⟨idle, unarmed, none⟩ := acc.unstarted fresh
      exact ⟨idle, by simp_all, none⟩
  cases invoked with
  | false =>
      cases result
      exact base
  | true =>
      cases result
      have armed : SessionBuffer.armed s.readBuffer = true := by simp_all
      refine read_accounted base (acc.armed armed) (after rfl) ?_
      cases started : s.started with
      | true => rfl
      | false => simp_all [acc.unstarted started]

theorem perform_accounted {running : Nat} {s s' : Session β} {call : HandlerCall}
    (acc : Accounted settings running s) (done : s.perform settings call = some s') :
    Accounted settings running s' := by
  cases call with
  | retrieve len => exact retrieve_accounted acc done
  | write data => exact acc.congr (append_keeps done) (append_notified done acc.notified)
  | postWrite argument =>
      cases done
      refine ⟨acc.reads, acc.writes, ?_, acc.armed, acc.unstarted, acc.notified⟩
      simpa [postWork, List.count_append] using acc.work
  | close =>
      cases done
      exact acc.congr (close_keeps s) (closeIfNecessary_notified acc.notified)

theorem performAll_accounted {running : Nat} {s s' : Session β} {calls : List HandlerCall}
    (acc : Accounted settings running s) (done : performAll settings calls s = some s') :
    Accounted settings running s' := by
  induction calls generalizing s with
  | nil =>
      cases done
      exact acc
  | cons call rest ih =>
      obtain ⟨middle, first, last⟩ := Option.bind_eq_some_iff.mp done
      exact ih (perform_accounted acc first) last

/-- Handlers start reads and post tasks. They leave the writes alone. -/
structure Handled (s s' : Session β) : Prop where
  writing : s'.writing = s.writing
  workReadCount : s'.workReadCount = s.workReadCount
  started : s'.started = s.started
  closeFlag : s.closeFlag = true → s'.closeFlag = true

omit [SessionBuffer β] in
theorem Keeps.handled {s s' : Session β} (keeps : Keeps s s') : Handled s s' :=
  ⟨keeps.writing, keeps.workReadCount, keeps.started, keeps.closeFlag⟩

theorem perform_handled {s s' : Session β} {call : HandlerCall}
    (done : s.perform settings call = some s') : Handled s s' := by
  cases call with
  | retrieve len =>
      obtain ⟨⟨readBuffer, invoked⟩, _, result⟩ := Option.bind_eq_some_iff.mp done
      cases invoked with
      | false =>
          cases result
          exact ⟨rfl, rfl, rfl, id⟩
      | true =>
          cases result
          exact ⟨rfl, rfl, rfl, id⟩
  | write data => exact (append_keeps done).handled
  | postWrite argument =>
      cases done
      exact ⟨rfl, rfl, rfl, id⟩
  | close =>
      cases done
      exact (close_keeps s).handled

theorem performAll_handled {s s' : Session β} {calls : List HandlerCall}
    (done : performAll settings calls s = some s') : Handled s s' := by
  induction calls generalizing s with
  | nil =>
      cases done
      exact ⟨rfl, rfl, rfl, id⟩
  | cons call rest ih =>
      obtain ⟨middle, first, last⟩ := Option.bind_eq_some_iff.mp done
      have head := perform_handled first
      have tail := ih last
      exact ⟨tail.writing.trans head.writing, tail.workReadCount.trans head.workReadCount,
        tail.started.trans head.started, fun flag => tail.closeFlag (head.closeFlag flag)⟩

/-! ## The steps -/

theorem start_accounted {s s' : Session β} {connect : List HandlerCall}
    (acc : Accounted settings 0 s) (fresh : s.started = false)
    (done : s.start settings connect = some s') :
    Accounted settings 0 { s' with started := true } := by
  obtain ⟨middle, calls, result⟩ := Option.bind_eq_some_iff.mp done
  cases result
  have noted : Accounted settings 0 (s.note .fireConnect) :=
    acc.congr (note_keeps s _) (note_notified acc.notified rfl)
  have connected := performAll_accounted noted calls
  obtain ⟨idle, unarmed, _⟩ :=
    connected.unstarted ((performAll_handled calls).started.trans fresh)
  have marked : Accounted settings 0 { middle with started := true } := by
    refine ⟨connected.reads, connected.writes, connected.work, connected.armed, ?_,
      connected.notified⟩
    intro impossible
    cases impossible
  exact read_accounted marked idle unarmed rfl

theorem fireRead_accounted {s s' : Session β} {decode : List HandlerCall}
    (acc : Accounted settings 1 s) (done : s.fireRead settings decode = some s') :
    Accounted settings 0 s' := by
  obtain ⟨middle, calls, result⟩ := Option.bind_eq_some_iff.mp done
  cases result
  have noted : Accounted settings 1 (s.note .fireRead) :=
    acc.congr (note_keeps s _) (note_notified acc.notified rfl)
  have decoded := performAll_accounted noted calls
  have counted : Accounted settings 0 { middle with
      handleCount := subtract middle.handleCount 1
      workReadCount := subtract middle.workReadCount 1 } := by
    have work := decoded.work
    refine ⟨decoded.reads, decoded.writes, ?_, decoded.armed, ?_, decoded.notified⟩
    · simp only [subtract]
      rw [if_pos (by omega)]
      omega
    · intro fresh
      obtain ⟨_, _, none⟩ := decoded.unstarted fresh
      omega
  exact counted.congr (closeIfNecessary_ending _).keeps (closeIfNecessary_notified counted.notified)

/-- A session that is reading was started, and no handler waits. -/
theorem Accounted.busy {running : Nat} {s : Session β} (acc : Accounted settings running s)
    (reading : s.reading = true) :
    s.started = true ∧ SessionBuffer.armed s.readBuffer = false := by
  constructor
  · cases started : s.started with
    | true => rfl
    | false =>
        have idle := (acc.unstarted started).1
        rw [reading] at idle
        cases idle
  · cases armed : SessionBuffer.armed s.readBuffer with
    | false => rfl
    | true =>
        have idle := acc.armed armed
        rw [reading] at idle
        cases idle

theorem Accounted.reading_of_reads {running reads : Nat} {s : Session β}
    (acc : Accounted settings running s) (outstanding : s.reads = reads + 1) :
    s.reading = true ∧ reads = 0 := by
  have flag := acc.reads
  rw [outstanding] at flag
  cases reading : s.reading with
  | true => simpa [reading] using flag
  | false => simp [reading] at flag

theorem Accounted.writing_of_writes {running operation : Nat} {s : Session β}
    {data : List UInt8} (acc : Accounted settings running s)
    (outstanding : s.writes[operation]? = some data) :
    s.writing = true ∧ s.writes.eraseIdx operation = [] := by
  have flag := acc.writes
  obtain ⟨inside, _⟩ := List.getElem?_eq_some_iff.mp outstanding
  cases writing : s.writing with
  | true =>
      rw [writing] at flag
      refine ⟨rfl, List.length_eq_zero_iff.mp ?_⟩
      rw [List.length_eraseIdx_of_lt inside, flag]
      rfl
  | false =>
      rw [flag, writing] at inside
      cases inside

/-- A session behind the first statements of `handle_read`. -/
def readEnded (s : Session β) : Session β :=
  { s with handleCount := s.handleCount + 1, reading := false }

/-- A session behind the first statements of `handle_write`. -/
def writeEnded (s : Session β) : Session β :=
  { s with handleCount := subtract s.handleCount 1, writing := false }

omit [SessionBuffer β] in
theorem closeAfterLastRead_closes {s : Session β}
    (closing : (s.closeFlag && !s.writing) = true) :
    (closeAfterLastRead settings s).2 = true := by
  unfold closeAfterLastRead
  rw [if_pos closing]
  dsimp only
  split
  · rfl
  · rfl

omit [SessionBuffer β] in
theorem closeAfterLastRead_waits {s : Session β}
    (open_ : (s.closeFlag && !s.writing) = false) :
    closeAfterLastRead settings s = (s, false) := by
  unfold closeAfterLastRead
  simp [open_]

/-- `handle_read` starts the next read at once. -/
def ReadsOn (settings : Settings) (readBuffer : β) : Prop :=
  settings.readHighWaterMask = 0 ∨
    SessionBuffer.readableBytes readBuffer < settings.readHighWaterMask

instance (readBuffer : β) : Decidable (ReadsOn settings readBuffer) :=
  inferInstanceAs (Decidable (_ ∨ _))

/-- What `handle_read` does: it closes for an error or for a close that waited
for it, or it goes on reading, or it arms the high-water handler. -/
theorem handleRead_cases {s s' : Session β} {result : Except ErrorCode (List UInt8)}
    (done : s.handleRead settings result = some s') :
    (∃ code level, result = .error code ∧
      s' = (closeAfterLastRead settings
        { s.readEnded.note (.log level) with closeFlag := true }).1) ∨
    ∃ data readBuffer, result = .ok data ∧
      SessionBuffer.receive s.readBuffer data = some readBuffer ∧
      ((s.closeFlag && !s.writing) = true ∧
          s' = (closeAfterLastRead settings { s.readEnded with readBuffer := readBuffer }).1 ∨
        (s.closeFlag && !s.writing) = false ∧ ∃ resumed,
          (ReadsOn settings readBuffer ∧
              resumed = { s.readEnded with readBuffer := readBuffer }.read ∨
            ¬ ReadsOn settings readBuffer ∧ resumed = { s.readEnded with
              readBuffer := SessionBuffer.setNotifyBehindHighWaterMask readBuffer
                settings.readHighWaterMask }) ∧
          s' = postWork { resumed with workReadCount := s.workReadCount + 1 } .fireRead) := by
  cases result with
  | error code =>
      cases done
      exact .inl ⟨code, _, rfl, rfl⟩
  | ok data =>
      obtain ⟨readBuffer, received, rest⟩ := Option.bind_eq_some_iff.mp done
      refine .inr ⟨data, readBuffer, rfl, received, ?_⟩
      cases closing : s.closeFlag && !s.writing with
      | true =>
          refine .inl ⟨rfl, ?_⟩
          have last : (closeAfterLastRead settings
              { s.readEnded with readBuffer := readBuffer }).2 = true :=
            closeAfterLastRead_closes closing
          rw [readEnded] at last
          simp only [last, if_true] at rest
          exact (Option.some.inj rest).symm
      | false =>
          refine .inr ⟨rfl, ?_⟩
          have waits : closeAfterLastRead settings { s.readEnded with readBuffer := readBuffer } =
              ({ s.readEnded with readBuffer := readBuffer }, false) :=
            closeAfterLastRead_waits closing
          rw [readEnded] at waits
          simp only [waits] at rest
          cases rest
          split
          · rename_i below
            exact ⟨_, .inl ⟨below, rfl⟩, rfl⟩
          · rename_i above
            exact ⟨_, .inr ⟨above, rfl⟩, rfl⟩

/-- A session behind a write operation that was given away `length` bytes. -/
def bytesSent (s : Session β) (writeBuffer : β) (length : Nat) : Session β :=
  { s.writeEnded with
    writeBuffer := writeBuffer
    pendingWriteLen := subtract s.pendingWriteLen length }

/-- What `handle_write` does: it closes for an error, it goes on writing, or it
has nothing left to write and closes if it is to. -/
theorem handleWrite_cases {s s' : Session β} {result : Except ErrorCode Nat}
    (done : s.handleWrite settings result = some s') :
    (∃ code level, result = .error code ∧
      s' = closeAfterLastWrite settings
        { s.writeEnded.note (.log level) with closeFlag := true }) ∨
    ∃ length writeBuffer invoked, result = .ok length ∧
      SessionBuffer.retrieve s.writeBuffer length = some (writeBuffer, invoked) ∧
      (subtract s.pendingWriteLen length ≠ 0 ∧ s' = (s.bytesSent writeBuffer length).write ∨
        subtract s.pendingWriteLen length = 0 ∧
          s' = (s.bytesSent writeBuffer length).closeAfterLastWrite settings) := by
  cases result with
  | error code =>
      cases done
      exact .inl ⟨code, _, rfl, rfl⟩
  | ok length =>
      obtain ⟨⟨writeBuffer, invoked⟩, retrieved, rest⟩ := Option.bind_eq_some_iff.mp done
      refine .inr ⟨length, writeBuffer, invoked, rfl, retrieved, ?_⟩
      cases rest
      dsimp only
      split
      · rename_i left
        exact .inl ⟨Nat.ne_of_gt left, rfl⟩
      · rename_i none
        exact .inr ⟨Nat.eq_zero_of_not_pos none, rfl⟩

theorem handleRead_accounted {s s' : Session β} {reads : Nat}
    {result : Except ErrorCode (List UInt8)} (acc : Accounted settings 0 s)
    (outstanding : s.reads = reads + 1)
    (done : handleRead settings { s with reads := reads } result = some s') :
    Accounted settings 0 s' := by
  obtain ⟨reading, rfl⟩ := acc.reading_of_reads outstanding
  obtain ⟨started, unarmed⟩ := acc.busy reading
  -- the state in which `handle_read` decides, with any buffer that holds no handler
  have idle : ∀ readBuffer, SessionBuffer.armed readBuffer = false →
      Accounted settings 0 { readEnded { s with reads := 0 } with readBuffer := readBuffer } :=
    fun readBuffer _ =>
      ⟨rfl, acc.writes, acc.work, fun _ => rfl, by simp [readEnded, started], acc.notified⟩
  rcases handleRead_cases done with
    ⟨code, level, _, rfl⟩ | ⟨data, readBuffer, _, received, ⟨_, rfl⟩ | ⟨_, resumed, how, rfl⟩⟩
  · have logged : Accounted settings 0
        { (readEnded { s with reads := 0 }).note (.log level) with closeFlag := true } :=
      ⟨rfl, acc.writes, acc.work, fun _ => rfl, by simp [readEnded, note, started],
        note_notified acc.notified rfl⟩
    exact logged.congr (closeAfterLastRead_ending _).keeps
      (closeAfterLastRead_notified logged.notified)
  · have arrived := idle readBuffer ((SessionBuffer.receive_armed received).trans unarmed)
    exact arrived.congr (closeAfterLastRead_ending _).keeps
      (closeAfterLastRead_notified arrived.notified)
  · have still := (SessionBuffer.receive_armed received).trans unarmed
    have resumes : Accounted settings 0 resumed ∧ resumed.started = true ∧
        resumed.workQueue = s.workQueue := by
      rcases how with ⟨_, rfl⟩ | ⟨_, rfl⟩
      · exact ⟨read_accounted (idle readBuffer still) rfl still started, started, rfl⟩
      · exact ⟨⟨rfl, acc.writes, acc.work, fun _ => rfl, by simp [readEnded, started],
          acc.notified⟩, started, rfl⟩
    obtain ⟨again, begun, queue⟩ := resumes
    refine ⟨again.reads, again.writes, ?_, again.armed, ?_, again.notified⟩
    · simp [postWork, queue, List.count_append, acc.work]
    · simp [postWork, begun]

theorem write_closeFlag (s : Session β) : s.write.closeFlag = s.closeFlag := by
  unfold write
  split
  · rfl
  · rfl

theorem write_accounted {running : Nat} {s : Session β} (acc : Accounted settings running s) :
    Accounted settings running s.write := by
  unfold write
  split
  · rename_i free
    have idle : s.writing = false := by simp_all
    refine ⟨acc.reads, ?_, acc.work, acc.armed, acc.unstarted,
      note_notified acc.notified rfl⟩
    simp [acc.writes, idle]
  · exact acc

theorem handleWrite_accounted {s s' : Session β} {result : Except ErrorCode Nat}
    (acc : Accounted settings 0 s.writeEnded)
    (done : s.handleWrite settings result = some s') : Accounted settings 0 s' := by
  rcases handleWrite_cases done with
    ⟨code, level, _, rfl⟩ | ⟨length, writeBuffer, invoked, _, _, ⟨_, rfl⟩ | ⟨_, rfl⟩⟩
  · have logged : Accounted settings 0
        { s.writeEnded.note (.log level) with closeFlag := true } :=
      ⟨acc.reads, acc.writes, acc.work, acc.armed, acc.unstarted,
        note_notified acc.notified rfl⟩
    exact logged.congr (closeAfterLastWrite_ending _).keeps
      (closeAfterLastWrite_notified logged.notified)
  · apply write_accounted
    exact ⟨acc.reads, acc.writes, acc.work, acc.armed, acc.unstarted, acc.notified⟩
  · have sent : Accounted settings 0 (s.bytesSent writeBuffer length) :=
      ⟨acc.reads, acc.writes, acc.work, acc.armed, acc.unstarted, acc.notified⟩
    exact sent.congr (closeAfterLastWrite_ending _).keeps
      (closeAfterLastWrite_notified sent.notified)

/-! ## What a step does -/

theorem Steps.start {s s' : Session β} {connect : List HandlerCall}
    (step : s.Steps settings (.start connect) s') :
    s.started = false ∧ ∃ last, s.start settings connect = some last ∧
      s' = { last with started := true } := by
  dsimp only [Steps, Session.step] at step
  split at step
  · cases step
  · rename_i fresh
    obtain ⟨last, done, rfl⟩ := Option.map_eq_some_iff.mp step
    exact ⟨Bool.eq_false_iff.mpr fresh, last, done, rfl⟩

theorem Steps.readDone {s s' : Session β} {result : Except ErrorCode (List UInt8)}
    (step : s.Steps settings (.readDone result) s') :
    ∃ reads, s.reads = reads + 1 ∧
      handleRead settings { s with reads := reads } result = some s' := by
  dsimp only [Steps, Session.step] at step
  split at step
  · cases step
  · rename_i reads outstanding
    exact ⟨reads, outstanding, step⟩

/-- A write that succeeds has sent the first bytes that it was given. -/
theorem Steps.writeDone_ok {s s' : Session β} {operation length : Nat}
    (step : s.Steps settings (.writeDone operation (.ok length)) s') :
    ∃ data, s.writes[operation]? = some data ∧ length ≤ data.length ∧
      handleWrite settings (note { s with writes := s.writes.eraseIdx operation }
        (.sent (data.take length))) (.ok length) = some s' := by
  dsimp only [Steps, Session.step] at step
  split at step
  · cases step
  · rename_i data outstanding
    dsimp only [Session.writeDone] at step
    split at step
    · rename_i inside
      exact ⟨data, outstanding, inside, step⟩
    · cases step

theorem Steps.writeDone_error {s s' : Session β} {operation : Nat} {code : ErrorCode}
    (step : s.Steps settings (.writeDone operation (.error code)) s') :
    ∃ data, s.writes[operation]? = some data ∧
      handleWrite settings { s with writes := s.writes.eraseIdx operation } (.error code) =
        some s' := by
  dsimp only [Steps, Session.step] at step
  split at step
  · cases step
  · rename_i data outstanding
    exact ⟨data, outstanding, step⟩

/-- A write completes, with an event for the bytes that it has sent. -/
theorem Steps.writeDone {s s' : Session β} {operation : Nat} {result : Except ErrorCode Nat}
    (step : s.Steps settings (.writeDone operation result) s') :
    ∃ data, s.writes[operation]? = some data ∧
      ∃ ended, (ended = { s with writes := s.writes.eraseIdx operation } ∨
          ∃ bytes, ended =
            note { s with writes := s.writes.eraseIdx operation } (.sent bytes)) ∧
        ended.handleWrite settings result = some s' := by
  cases result with
  | error code =>
      obtain ⟨data, outstanding, handled⟩ := step.writeDone_error
      exact ⟨data, outstanding, _, .inl rfl, handled⟩
  | ok length =>
      obtain ⟨data, outstanding, _, handled⟩ := step.writeDone_ok
      exact ⟨data, outstanding, _, .inr ⟨_, rfl⟩, handled⟩

theorem Steps.runIo {s s' : Session β} (step : s.Steps settings .runIo s') :
    ∃ task rest, s.ioQueue = task :: rest ∧
      (task = .write ∧ s' = write { s with ioQueue := rest } ∨
        task = .close ∧ s' = closeTask settings { s with ioQueue := rest }) := by
  dsimp only [Steps, Session.step] at step
  split at step
  · cases step
  · rename_i rest queue
    exact ⟨.write, rest, queue, .inl ⟨rfl, (Option.some.inj step).symm⟩⟩
  · rename_i rest queue
    exact ⟨.close, rest, queue, .inr ⟨rfl, (Option.some.inj step).symm⟩⟩

theorem Steps.runWork {s s' : Session β} {decode : List HandlerCall}
    (step : s.Steps settings (.runWork decode) s') :
    ∃ task rest, s.workQueue = task :: rest ∧
      (task = .fireRead ∧ fireRead settings { s with workQueue := rest } decode = some s' ∨
        ∃ data, task = .write data ∧
          append settings { s with workQueue := rest } data = some s') := by
  dsimp only [Steps, Session.step] at step
  split at step
  · cases step
  · rename_i rest queue
    exact ⟨.fireRead, rest, queue, .inl ⟨rfl, step⟩⟩
  · rename_i data rest queue
    exact ⟨.write data, rest, queue, .inr ⟨data, rfl, step⟩⟩

/-- A read task taken off the queue of the work service is running. -/
theorem Accounted.fireRead_taken {s : Session β} (acc : Accounted settings 0 s)
    {rest : List WorkTask} (queue : s.workQueue = .fireRead :: rest) :
    Accounted settings 1 { s with workQueue := rest } := by
  refine ⟨acc.reads, acc.writes, ?_, acc.armed, acc.unstarted, acc.notified⟩
  simp [acc.work, queue, Nat.add_comm]

theorem writeDone_accounted {s ended s' : Session β} {operation : Nat} {data : List UInt8}
    {result : Except ErrorCode Nat} (acc : Accounted settings 0 s)
    (outstanding : s.writes[operation]? = some data)
    (how : ended = { s with writes := s.writes.eraseIdx operation } ∨
      ∃ bytes, ended = note { s with writes := s.writes.eraseIdx operation } (.sent bytes))
    (handled : ended.handleWrite settings result = some s') : Accounted settings 0 s' := by
  obtain ⟨_, none⟩ := acc.writing_of_writes outstanding
  have idle : Accounted settings 0
      (writeEnded { s with writes := s.writes.eraseIdx operation }) :=
    ⟨acc.reads, by simp [writeEnded, none], acc.work, acc.armed, acc.unstarted, acc.notified⟩
  rcases how with rfl | ⟨bytes, rfl⟩
  · exact handleWrite_accounted idle handled
  · have noted := idle.congr (note_keeps _ (.sent bytes))
      (note_notified idle.notified rfl)
    refine handleWrite_accounted ?_ handled
    exact noted

/-- A session that is to close stays so. -/
theorem step_closeFlag {s s' : Session β} {action : Action}
    (step : s.Steps settings action s') (flag : s.closeFlag = true) : s'.closeFlag = true := by
  cases action with
  | start connect =>
      obtain ⟨_, last, done, rfl⟩ := step.start
      obtain ⟨middle, calls, result⟩ := Option.bind_eq_some_iff.mp done
      cases result
      exact (performAll_handled calls).closeFlag flag
  | readDone result =>
      obtain ⟨reads, _, done⟩ := step.readDone
      rcases handleRead_cases done with
        ⟨_, _, _, rfl⟩ | ⟨_, _, _, _, ⟨_, rfl⟩ | ⟨_, _, ⟨_, rfl⟩ | ⟨_, rfl⟩, rfl⟩⟩
      · exact (closeAfterLastRead_ending _).keeps.closeFlag rfl
      · exact (closeAfterLastRead_ending _).keeps.closeFlag flag
      · exact flag
      · exact flag
  | writeDone operation result =>
      obtain ⟨data, _, ended, how, handled⟩ := step.writeDone
      have same : ended.closeFlag = s.closeFlag := by
        rcases how with rfl | ⟨bytes, rfl⟩ <;> rfl
      rcases handleWrite_cases handled with ⟨_, _, _, rfl⟩ | ⟨_, _, _, _, _, ⟨_, rfl⟩ | ⟨_, rfl⟩⟩
      · exact (closeAfterLastWrite_ending _).keeps.closeFlag rfl
      · exact (write_closeFlag _).trans (same.trans flag)
      · exact (closeAfterLastWrite_ending _).keeps.closeFlag (same.trans flag)
  | runIo =>
      obtain ⟨task, rest, _, ⟨_, rfl⟩ | ⟨_, rfl⟩⟩ := step.runIo
      · exact (write_closeFlag _).trans flag
      · exact (closeTask_ending _).keeps.closeFlag flag
  | runWork decode =>
      obtain ⟨task, rest, _, ⟨_, done⟩ | ⟨data, _, done⟩⟩ := step.runWork
      · obtain ⟨middle, calls, result⟩ := Option.bind_eq_some_iff.mp done
        cases result
        exact (closeIfNecessary_ending _).keeps.closeFlag
          ((performAll_handled calls).closeFlag flag)
      · exact (append_keeps done).closeFlag flag
  | write data => exact (append_keeps step).closeFlag flag
  | postWrite argument =>
      cases step
      exact flag
  | close =>
      cases step
      exact (close_keeps s).closeFlag flag

/-- Every step keeps the bookkeeping. -/
theorem step_accounted {s s' : Session β} {action : Action} (acc : Accounted settings 0 s)
    (step : s.Steps settings action s') : Accounted settings 0 s' := by
  cases action with
  | start connect =>
      obtain ⟨fresh, last, done, rfl⟩ := step.start
      exact start_accounted acc fresh done
  | readDone result =>
      obtain ⟨reads, outstanding, done⟩ := step.readDone
      exact handleRead_accounted acc outstanding done
  | writeDone operation result =>
      obtain ⟨data, outstanding, ended, how, handled⟩ := step.writeDone
      exact writeDone_accounted acc outstanding how handled
  | runIo =>
      obtain ⟨task, rest, _, ⟨_, rfl⟩ | ⟨_, rfl⟩⟩ := step.runIo
      · apply write_accounted
        exact ⟨acc.reads, acc.writes, acc.work, acc.armed, acc.unstarted, acc.notified⟩
      · have taken : Accounted settings 0 { s with ioQueue := rest } :=
          ⟨acc.reads, acc.writes, acc.work, acc.armed, acc.unstarted, acc.notified⟩
        exact taken.congr (closeTask_ending _).keeps (closeTask_notified taken.notified)
  | runWork decode =>
      obtain ⟨task, rest, queue, ⟨rfl, done⟩ | ⟨data, rfl, done⟩⟩ := step.runWork
      · exact fireRead_accounted (acc.fireRead_taken queue) done
      · have taken : Accounted settings 0 { s with workQueue := rest } := by
          refine ⟨acc.reads, acc.writes, ?_, acc.armed, acc.unstarted, acc.notified⟩
          simp [acc.work, queue]
        exact taken.congr (append_keeps done) (append_notified done taken.notified)
  | write data => exact acc.congr (append_keeps step) (append_notified step acc.notified)
  | postWrite argument =>
      have posted : s.perform settings (.postWrite argument) = some s' := step
      exact perform_accounted acc posted
  | close =>
      have closed : s.perform settings .close = some s' := step
      exact perform_accounted acc closed

end Session

end FysobEngine.Net
