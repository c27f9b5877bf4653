import FysobEngine.Foundation.Logs
import FysobEngine.Foundation.Runs
import FysobEngine.Net.SessionInvariant

/-!
# The end of a session

Four places of a session close its socket and notify its owner. Each looks at
flags that another place may still change, so the order of the steps decides
whether a session ends once.
-/

namespace FysobEngine.Net

/-- The calls that a closed socket answers with an error. -/
def Event.usesSocket : Event → Bool
  | .asyncReadSome | .asyncWriteSome _ | .shutdown | .cancel => true
  | _ => false

/-- Once the socket is closed nothing uses it. -/
def UnusedBehindClose (trace : List Event) : Prop :=
  ∀ before behind, trace = before ++ .closeSocket :: behind →
    ∀ event ∈ behind, event.usesSocket = false

theorem unused_of_open {trace : List Event} (none : trace.count .closeSocket = 0) :
    UnusedBehindClose trace := by
  rintro before behind rfl
  simp at none

theorem UnusedBehindClose.note {trace : List Event} {event : Event}
    (unused : UnusedBehindClose trace)
    (idle : event.usesSocket = true → trace.count .closeSocket = 0) :
    UnusedBehindClose (trace ++ [event]) := by
  intro before behind split other member
  obtain ⟨rfl, -, -⟩ | ⟨front, rfl, rfl⟩ := Foundation.Logs.split_append_singleton split
  · cases member
  · rw [List.mem_append, List.mem_singleton] at member
    rcases member with inFront | rfl
    · exact unused before front rfl other inFront
    · cases uses : other.usesSocket with
      | false => rfl
      | true => simpa using idle uses

namespace Session

open Foundation.Runs

variable {β : Type} {settings : Settings} {event : Event}

/-! ## Ending once -/

/-- The session is to close, and nothing of it is outstanding. -/
structure Quiet (s : Session β) : Prop where
  closeFlag : s.closeFlag = true
  reading : s.reading = false
  writing : s.writing = false
  workReadCount : s.workReadCount = 0

theorem Quiet.keeps {s s' : Session β} (quiet : Quiet s) (keeps : Keeps s s') : Quiet s' where
  closeFlag := keeps.closeFlag quiet.closeFlag
  reading := keeps.reading.trans quiet.reading
  writing := keeps.writing.trans quiet.writing
  workReadCount := keeps.workReadCount.trans quiet.workReadCount

theorem Quiet.queues {s : Session β} (quiet : Quiet s) (ioQueue : List IoTask)
    (workQueue : List WorkTask) :
    Quiet { s with ioQueue := ioQueue, workQueue := workQueue } :=
  ⟨quiet.closeFlag, quiet.reading, quiet.writing, quiet.workReadCount⟩

/-- How often an event that ends the session has happened or is queued. -/
def ended (event : Event) (s : Session β) : Nat :=
  s.trace.count event + s.ioQueue.count .close

@[simp] theorem note_ended (s : Session β) (other : Event) :
    (s.note other).ended event = s.ended event + if other = event then 1 else 0 := by
  simp [ended, note, List.count_append, List.count_singleton, Nat.add_right_comm]

@[simp] theorem postIo_ended (s : Session β) (task : IoTask) :
    (s.postIo task).ended event = s.ended event + if task = .close then 1 else 0 := by
  simp [ended, postIo, List.count_append, List.count_singleton, Nat.add_assoc]

/-- An event that does not end the session leaves the count alone. -/
theorem note_same (ends : event = .fireClosed ∨ event = .closeSocket) (s : Session β)
    {other : Event} (notClosed : other ≠ .fireClosed) (opened : other ≠ .closeSocket) :
    (s.note other).ended event = s.ended event := by
  rcases ends with rfl | rfl
  · simp [notClosed]
  · simp [opened]

/-- Behind the end, or with the task that ends it in the queue, no write task
finds bytes to send, and nobody closes or starts the session. -/
def Orderly (event : Event) (s : Session β) : Action → Prop
  | .start connect => s.ended event = 0 ∧ (.close ∈ connect → s.writing = true)
  | .runIo => 0 < s.ended event → s.ioQueue.head? = some .write → s.pendingWriteLen = 0
  | .close => s.ended event = 0
  | _ => True

instance (s : Session β) (action : Action) : Decidable (s.Orderly event action) :=
  match action with
  | .start connect =>
      inferInstanceAs (Decidable (s.ended event = 0 ∧ (.close ∈ connect → s.writing = true)))
  | .runIo => inferInstanceAs (Decidable (_ → _))
  | .close => inferInstanceAs (Decidable (s.ended event = 0))
  | .readDone _ | .writeDone _ _ | .runWork _ | .write _ | .postWrite _ => .isTrue trivial

/-- A completion that closes the socket finds no read task in the work queue. -/
def ClosesBehindWork (s : Session β) : Action → Prop
  | .readDone (.ok _) => s.closeFlag = true → s.writing = false → s.workReadCount = 0
  | .readDone (.error _) => s.writing = false → s.workReadCount = 0
  | .writeDone _ (.ok length) => s.closeFlag = true → subtract s.pendingWriteLen length = 0 →
      s.reading = false → s.workReadCount = 0
  | .writeDone _ (.error _) => s.reading = false → s.workReadCount = 0
  | _ => True

instance (s : Session β) (action : Action) : Decidable (s.ClosesBehindWork action) :=
  match action with
  | .readDone (.ok _) | .readDone (.error _) | .writeDone _ (.ok _) | .writeDone _ (.error _) =>
      inferInstanceAs (Decidable (_ → _))
  | .start _ | .runIo | .runWork _ | .write _ | .postWrite _ | .close => .isTrue trivial

/-- The session ends once, with nothing outstanding. -/
structure Once (event : Event) (s : Session β) : Prop where
  once : s.ended event ≤ 1
  quiet : 0 < s.ended event → Quiet s
  unused : event = .closeSocket → UnusedBehindClose s.trace

theorem once_of_none {s : Session β} (none : s.ended event = 0) : Once event s where
  once := by simp [none]
  quiet := by simp [none]
  unused := by
    rintro rfl
    exact unused_of_open (Nat.eq_zero_of_add_eq_zero_right none)

variable (ends : event = .fireClosed ∨ event = .closeSocket)
include ends

theorem closeTask_ended (s : Session β) :
    (s.closeTask settings).ended event = s.ended event + 1 := by
  unfold closeTask notifyClosed
  dsimp only
  rcases ends with rfl | rfl
  · split <;> simp
  · split <;> simp

omit ends in
theorem closeTask_unused {s : Session β} (opened : s.trace.count .closeSocket = 0) :
    UnusedBehindClose (s.closeTask settings).trace := by
  have shut : UnusedBehindClose (s.trace ++ [.shutdown]) :=
    (unused_of_open opened).note fun _ => opened
  have closed : UnusedBehindClose (s.trace ++ [.shutdown] ++ [.closeSocket]) :=
    shut.note fun impossible => by cases impossible
  have notified : UnusedBehindClose
      (s.trace ++ [.shutdown] ++ [.closeSocket] ++ [.fireClosed]) :=
    closed.note fun impossible => by cases impossible
  unfold closeTask notifyClosed
  dsimp only
  split
  · exact notified.note fun impossible => by cases impossible
  · exact notified

/-- Closing with nothing outstanding ends a session that has not ended. -/
theorem closeTask_once {s : Session β} (none : s.ended event = 0) (quiet : Quiet s) :
    Once event (s.closeTask settings) where
  once := by simp [closeTask_ended ends, none]
  quiet := fun _ => quiet.keeps (closeTask_ending s).keeps
  unused := by
    rintro rfl
    exact closeTask_unused (Nat.eq_zero_of_add_eq_zero_right none)

/-- Closing the socket alone does not notify anybody. -/
theorem closeSocket_ended (s : Session β) (notClose : event ≠ .closeSocket) :
    ((s.note .shutdown).note .closeSocket).ended event = s.ended event := by
  rcases ends with rfl | rfl
  · simp
  · exact absurd rfl notClose

theorem closeAfterLastRead_once {s : Session β} (none : s.ended event = 0)
    (idle : s.reading = false)
    (work : event = .closeSocket → s.closeFlag = true → s.writing = false →
      s.workReadCount = 0) :
    Once event (s.closeAfterLastRead settings).1 := by
  cases closing : s.closeFlag && !s.writing with
  | false =>
      rw [closeAfterLastRead_waits closing]
      exact once_of_none none
  | true =>
      obtain ⟨flag, free⟩ : s.closeFlag = true ∧ s.writing = false := by simpa using closing
      unfold closeAfterLastRead
      rw [if_pos closing]
      dsimp only
      split
      · rename_i count
        exact closeTask_once ends none ⟨flag, idle, free, count⟩
      · rename_i count
        have notClose : event ≠ .closeSocket := fun same => count (work same flag free)
        exact once_of_none ((closeSocket_ended ends s notClose).trans none)

theorem closeAfterLastWrite_once {s : Session β} (none : s.ended event = 0)
    (idle : s.writing = false)
    (work : event = .closeSocket → s.closeFlag = true → s.reading = false →
      s.workReadCount = 0) :
    Once event (s.closeAfterLastWrite settings) := by
  unfold closeAfterLastWrite
  dsimp only
  split
  · rename_i flag
    split
    · rename_i notReading
      have free : s.reading = false := by simpa [note] using notReading
      split
      · rename_i count
        exact closeTask_once ends none ⟨flag, free, idle, count⟩
      · rename_i count
        have notClose : event ≠ .closeSocket := fun same => count (work same flag free)
        exact once_of_none ((closeSocket_ended ends s notClose).trans none)
    · exact once_of_none ((note_same ends s (by simp) (by simp)).trans none)
  · exact once_of_none none

theorem closeIfNecessary_once {s : Session β} (none : s.ended event = 0) :
    Once event s.closeIfNecessary := by
  unfold closeIfNecessary
  split
  · rename_i closing
    split
    · exact once_of_none ((note_same ends s (by simp) (by simp)).trans none)
    · rename_i notReading
      have queued : (s.postIo .close).ended event = 1 := by simp [none]
      refine ⟨Nat.le_of_eq queued, fun _ => ?_, ?_⟩
      · simp at closing notReading
        exact ⟨closing.1.1, notReading, closing.1.2, closing.2⟩
      · rintro rfl
        exact unused_of_open (Nat.eq_zero_of_add_eq_zero_right none)
  · exact once_of_none none

variable [SessionBuffer β]

/-! ## Steps of a session that has not ended -/

omit [SessionBuffer β] in
theorem read_ended (s : Session β) : s.read.ended event = s.ended event :=
  note_same ends s (by simp) (by simp)

theorem write_ended (s : Session β) : s.write.ended event = s.ended event := by
  unfold write
  split
  · exact note_same ends s (by simp) (by simp)
  · rfl

theorem append_ended {s s' : Session β} {data : List UInt8}
    (done : s.append settings data = some s') : s'.ended event = s.ended event := by
  obtain ⟨writeBuffer, _, result⟩ := Option.bind_eq_some_iff.mp done
  cases result
  unfold notifyWrite
  dsimp only
  split
  · exact (note_same ends _ (by simp) (by simp)).trans (postIo_ended _ .write)
  · exact postIo_ended _ .write

theorem perform_ended {s s' : Session β} {call : HandlerCall}
    (busy : call = .close → s.writing = true ∨ s.workReadCount ≠ 0)
    (done : s.perform settings call = some s') : s'.ended event = s.ended event := by
  cases call with
  | retrieve len =>
      obtain ⟨⟨readBuffer, invoked⟩, _, result⟩ := Option.bind_eq_some_iff.mp done
      cases invoked with
      | false =>
          cases result
          rfl
      | true =>
          cases result
          exact read_ended ends { s with readBuffer := readBuffer }
  | write data => exact append_ended ends done
  | postWrite argument =>
      cases done
      rfl
  | close =>
      cases done
      unfold close closeIfNecessary
      rcases busy rfl with writing | work
      · simp [writing, ended]
      · simp [work, ended]

/-- Handlers that close leave the end to the write or the read task under way. -/
theorem performAll_ended {s s' : Session β} {calls : List HandlerCall}
    (busy : .close ∈ calls → s.writing = true ∨ s.workReadCount ≠ 0)
    (done : performAll settings calls s = some s') : s'.ended event = s.ended event := by
  induction calls generalizing s with
  | nil =>
      cases done
      rfl
  | cons call rest ih =>
      obtain ⟨middle, first, last⟩ := Option.bind_eq_some_iff.mp done
      have handled := perform_handled first
      have head : middle.ended event = s.ended event := by
        refine perform_ended ends (fun same => busy ?_) first
        rw [same]
        exact List.mem_cons_self
      rw [← head]
      refine ih (fun member => ?_) last
      rw [handled.writing, handled.workReadCount]
      exact busy (List.mem_cons_of_mem call member)

theorem start_once {s s' : Session β} {connect : List HandlerCall}
    (none : s.ended event = 0) (busy : .close ∈ connect → s.writing = true)
    (done : s.start settings connect = some s') :
    Once event { s' with started := true } := by
  obtain ⟨middle, calls, result⟩ := Option.bind_eq_some_iff.mp done
  cases result
  apply once_of_none
  have connected := performAll_ended ends (s := s.note .fireConnect)
    (fun member => .inl (busy member)) calls
  have reads : ({ middle.read with started := true } : Session β).ended event =
      middle.ended event := read_ended ends middle
  rw [reads, connected, note_same ends s (by simp) (by simp), none]

theorem fireRead_once {s s' : Session β} {decode : List HandlerCall}
    (acc : Accounted settings 1 s) (none : s.ended event = 0)
    (done : s.fireRead settings decode = some s') : Once event s' := by
  obtain ⟨middle, calls, result⟩ := Option.bind_eq_some_iff.mp done
  cases result
  have running : s.workReadCount ≠ 0 := by
    rw [acc.work]
    exact Nat.ne_of_gt (Nat.lt_of_lt_of_le Nat.zero_lt_one (Nat.le_add_right 1 _))
  have decoded := performAll_ended ends (s := s.note .fireRead) (fun _ => .inr running) calls
  apply closeIfNecessary_once ends
  change middle.ended event = 0
  rw [decoded, note_same ends s (by simp) (by simp), none]

theorem handleRead_once {s s' : Session β} {result : Except ErrorCode (List UInt8)}
    (none : s.ended event = 0)
    (work : event = .closeSocket → ClosesBehindWork s (.readDone result))
    (done : s.handleRead settings result = some s') : Once event s' := by
  rcases handleRead_cases done with
    ⟨code, level, rfl, rfl⟩ | ⟨data, readBuffer, rfl, _, ⟨_, rfl⟩ | ⟨_, resumed, how, rfl⟩⟩
  · refine closeAfterLastRead_once ends ?_ rfl fun same _ free => work same free
    exact (note_same ends s.readEnded (by simp) (by simp)).trans none
  · exact closeAfterLastRead_once ends none rfl fun same flag free => work same flag free
  · apply once_of_none
    change resumed.ended event = 0
    rcases how with ⟨_, rfl⟩ | ⟨_, rfl⟩
    · rw [read_ended ends]
      exact none
    · exact none

theorem handleWrite_once {s s' : Session β} (operation : Nat) {result : Except ErrorCode Nat}
    (none : s.ended event = 0)
    (work : event = .closeSocket → ClosesBehindWork s (.writeDone operation result))
    (done : s.handleWrite settings result = some s') : Once event s' := by
  rcases handleWrite_cases done with
    ⟨code, level, rfl, rfl⟩ | ⟨length, writeBuffer, invoked, rfl, _, ⟨_, rfl⟩ | ⟨empty, rfl⟩⟩
  · refine closeAfterLastWrite_once ends ?_ rfl fun same _ free => work same free
    exact (note_same ends s.writeEnded (by simp) (by simp)).trans none
  · apply once_of_none
    rw [write_ended ends]
    exact none
  · exact closeAfterLastWrite_once ends none rfl fun same flag free => work same flag empty free

/-- A step of a session that has not ended. -/
theorem first_step {s s' : Session β} {action : Action} (acc : Accounted settings 0 s)
    (none : s.ended event = 0) (orderly : s.Orderly event action)
    (work : event = .closeSocket → ClosesBehindWork s action)
    (step : s.Steps settings action s') : Once event s' := by
  cases action with
  | start connect =>
      obtain ⟨_, last, done, rfl⟩ := step.start
      exact start_once ends none orderly.2 done
  | readDone result =>
      obtain ⟨reads, _, done⟩ := step.readDone
      refine handleRead_once ends ?_ ?_ done
      · exact none
      · cases result <;> exact work
  | writeDone operation result =>
      obtain ⟨data, _, ended, how, handled⟩ := step.writeDone
      refine handleWrite_once ends operation ?_ ?_ handled
      · rcases how with rfl | ⟨bytes, rfl⟩
        · exact none
        · exact (note_same ends _ (by simp) (by simp)).trans none
      · rcases how with rfl | ⟨bytes, rfl⟩
        · cases result <;> exact work
        · cases result <;> exact work
  | runIo =>
      obtain ⟨task, rest, queue, ⟨rfl, rfl⟩ | ⟨rfl, rfl⟩⟩ := step.runIo
      · apply once_of_none
        rw [write_ended ends]
        simpa [ended, queue] using none
      · simp [ended, queue] at none
  | runWork decode =>
      obtain ⟨task, rest, queue, ⟨rfl, done⟩ | ⟨data, rfl, done⟩⟩ := step.runWork
      · exact fireRead_once ends (acc.fireRead_taken queue) none done
      · exact once_of_none ((append_ended ends done).trans none)
  | write data => exact once_of_none ((append_ended ends step).trans none)
  | postWrite argument =>
      cases step
      exact once_of_none none
  | close =>
      cases step
      exact closeIfNecessary_once ends none

/-! ## Steps of a session that has ended -/

omit ends in
theorem append_unused {s s' : Session β} {data : List UInt8}
    (done : s.append settings data = some s') (unused : UnusedBehindClose s.trace) :
    UnusedBehindClose s'.trace := by
  obtain ⟨writeBuffer, _, result⟩ := Option.bind_eq_some_iff.mp done
  cases result
  unfold notifyWrite
  dsimp only
  split
  · exact unused.note fun impossible => by cases impossible
  · exact unused

theorem append_once {s s' : Session β} {data : List UInt8} (once : Once event s)
    (done : s.append settings data = some s') : Once event s' where
  once := by
    rw [append_ended ends done]
    exact once.once
  quiet := by
    rw [append_ended ends done]
    exact fun pos => (once.quiet pos).keeps (append_keeps done)
  unused := fun same => append_unused done (once.unused same)

omit [SessionBuffer β] ends in
/-- A task taken off the queue of the socket. -/
theorem ended_taken {s : Session β} {task : IoTask} {rest : List IoTask}
    (queue : s.ioQueue = task :: rest) :
    s.ended event =
      ended event { s with ioQueue := rest } + if task = .close then 1 else 0 := by
  simp [ended, queue, List.count_cons, Nat.add_assoc]

/-- A step of a session that has ended or is about to. -/
theorem last_step {s s' : Session β} {action : Action} (acc : Accounted settings 0 s)
    (once : Once event s) (pos : 0 < s.ended event) (orderly : s.Orderly event action)
    (step : s.Steps settings action s') : Once event s' := by
  have quiet := once.quiet pos
  cases action with
  | start connect => exact absurd orderly.1 (Nat.ne_of_gt pos)
  | readDone result =>
      obtain ⟨reads, outstanding, _⟩ := step.readDone
      have busy := (acc.reading_of_reads outstanding).1
      rw [quiet.reading] at busy
      cases busy
  | writeDone operation result =>
      obtain ⟨data, outstanding, _⟩ := step.writeDone
      have busy := (acc.writing_of_writes outstanding).1
      rw [quiet.writing] at busy
      cases busy
  | runIo =>
      obtain ⟨task, rest, queue, ⟨rfl, rfl⟩ | ⟨rfl, rfl⟩⟩ := step.runIo
      · have empty : s.pendingWriteLen = 0 := orderly pos (by rw [queue, List.head?_cons])
        have idle : write { s with ioQueue := rest } = { s with ioQueue := rest } := by
          simp [write, empty]
        rw [idle]
        have same : s.ended event = ended event { s with ioQueue := rest } := ended_taken queue
        exact ⟨same ▸ once.once, fun _ => quiet.queues rest s.workQueue, once.unused⟩
      · have taken : s.ended event = ended event { s with ioQueue := rest } + 1 :=
          ended_taken queue
        have none : ended event { s with ioQueue := rest } = 0 := by
          have few := once.once
          rw [taken] at few
          exact Nat.le_zero.mp (Nat.le_of_succ_le_succ few)
        exact closeTask_once ends none (quiet.queues rest s.workQueue)
  | runWork decode =>
      obtain ⟨task, rest, queue, ⟨rfl, _⟩ | ⟨data, rfl, done⟩⟩ := step.runWork
      · have work := acc.work
        rw [quiet.workReadCount, queue] at work
        simp at work
      · have taken : Once event { s with workQueue := rest } :=
          ⟨once.once, fun _ => quiet.queues s.ioQueue rest, once.unused⟩
        exact append_once ends taken done
  | write data => exact append_once ends once step
  | postWrite argument =>
      cases step
      exact ⟨once.once, fun _ => quiet.queues s.ioQueue _, once.unused⟩
  | close => exact absurd orderly (Nat.ne_of_gt pos)

theorem step_once {s s' : Session β} {action : Action} (acc : Accounted settings 0 s)
    (once : Once event s) (orderly : s.Orderly event action)
    (work : event = .closeSocket → ClosesBehindWork s action)
    (step : s.Steps settings action s') : Once event s' := by
  rcases Nat.eq_zero_or_pos (s.ended event) with none | pos
  · exact first_step ends acc none orderly work step
  · exact last_step ends acc once pos orderly step

omit ends

/-- The invariant of the runs whose steps come in order. -/
theorem reached_once (ends : event = .fireClosed ∨ event = .closeSocket)
    {actions : List Action} {s : Session β}
    (run : Reached (fun _ _ => True) (Steps settings) create actions s)
    (ordered : Along (fun _ _ => True) (Steps settings)
      (fun s action => s.Orderly event action ∧
        (event = .closeSocket → ClosesBehindWork s action)) (create : Session β) actions) :
    Accounted settings 0 s ∧ Once event s := by
  refine run.invariant (I := fun s => Accounted settings 0 s ∧ Once event s) ?_ ordered ?_
  · rintro s action s' ⟨acc, once⟩ _ ⟨orderly, work⟩ step
    exact ⟨step_accounted acc step, step_once ends acc once orderly work step⟩
  · exact ⟨create_accounted, once_of_none rfl⟩

/-! ## The two results -/

/-- In every run in which, once the session has notified or is to notify, no
write task starts a write and nobody closes or starts the session, it notifies
at most once. -/
theorem notified_at_most_once {actions : List Action} {s : Session β}
    (run : Reached (fun _ _ => True) (Steps settings) create actions s)
    (orderly : Along (fun _ _ => True) (Steps settings) (Orderly .fireClosed)
      (create : Session β) actions) :
    s.trace.count .fireClosed ≤ 1 ∧ s.trace.count .closeHandler ≤ 1 := by
  obtain ⟨acc, once⟩ := reached_once (.inl rfl) run
    (orderly.mono fun _ _ meets => ⟨meets, fun impossible => by cases impossible⟩)
  have closed : s.trace.count .fireClosed ≤ 1 :=
    Nat.le_trans (Nat.le_add_right _ _) once.once
  refine ⟨closed, ?_⟩
  rw [acc.notified]
  split
  · exact closed
  · exact Nat.zero_le 1

/-- No masks, and a close handler. -/
def plainSettings : Settings := ⟨0, 0, false, true⟩

/-- A peer sends a byte, gets one back and leaves. -/
def politeRun : List Action :=
  [.start [], .readDone (.ok [65]), .runWork [.retrieve 1, .write [66]], .runIo,
    .writeDone 0 (.ok 1), .readDone (.error .eof)]

theorem politeRun_notified : ∃ s : Session AsioBuffer,
    last (Session.step plainSettings) create politeRun = some s ∧
      s.trace.count .fireClosed = 1 ∧
      (s.trace.count .fireClosed ≤ 1 ∧ s.trace.count .closeHandler ≤ 1) := by
  have runs : (last (Session.step plainSettings) (create : Session AsioBuffer) politeRun).any
      (fun s => s.trace.count .fireClosed = 1) = true := by
    decide +kernel
  have orderly : holdsAlong (Session.step plainSettings) (Orderly .fireClosed)
      (create : Session AsioBuffer) politeRun = true := by
    decide +kernel
  obtain ⟨s, run, once⟩ := (Option.any_eq_true _ _).mp runs
  exact ⟨s, run, of_decide_eq_true once,
    notified_at_most_once (reached_last run) (along_of_holdsAlong orderly)⟩

/-- A peer sends a byte and leaves. The reply is queued when the read task ends,
so the task that closes the session runs while the reply is written. -/
def replyBehindEofRun : List Action :=
  [.start [], .readDone (.ok [65]), .readDone (.error .eof),
    .runWork [.retrieve 1, .write [66]], .runIo, .runIo, .writeDone 0 (.error .other)]

theorem replyBehindEofRun_notifies_twice :
    ¬ ∀ (settings : Settings) (actions : List Action) (s : Session AsioBuffer),
      Reached (fun _ _ => True) (Steps settings) create actions s →
      s.trace.count .fireClosed ≤ 1 ∧ s.trace.count .closeHandler ≤ 1 := by
  intro all
  have runs : (last (Session.step plainSettings) (create : Session AsioBuffer)
      replyBehindEofRun).any
      (fun s => s.trace.count .fireClosed = 2 ∧ s.trace.count .closeHandler = 2) = true := by
    decide +kernel
  obtain ⟨s, run, twice⟩ := (Option.any_eq_true _ _).mp runs
  have few := (all plainSettings replyBehindEofRun s (reached_last run)).1
  rw [(of_decide_eq_true twice).1] at few
  exact absurd few (by decide)

/-- In every run in which the session also closes its socket with no read task
queued, nothing uses the socket once it is closed. -/
theorem unused_behind_close {actions : List Action} {s : Session β}
    (run : Reached (fun _ _ => True) (Steps settings) create actions s)
    (orderly : Along (fun _ _ => True) (Steps settings)
      (fun s action => s.Orderly .closeSocket action ∧ ClosesBehindWork s action)
      (create : Session β) actions) :
    UnusedBehindClose s.trace := by
  obtain ⟨_, once⟩ := reached_once (.inr rfl) run
    (orderly.mono fun _ _ meets => ⟨meets.1, fun _ => meets.2⟩)
  exact once.unused rfl

theorem politeRun_unused : ∃ s : Session AsioBuffer,
    last (Session.step plainSettings) create politeRun = some s ∧
      .closeSocket ∈ s.trace ∧ UnusedBehindClose s.trace := by
  have runs : (last (Session.step plainSettings) (create : Session AsioBuffer) politeRun).any
      (fun s => .closeSocket ∈ s.trace) = true := by
    decide +kernel
  have orderly : holdsAlong (Session.step plainSettings)
      (fun s action => s.Orderly .closeSocket action ∧ ClosesBehindWork s action)
      (create : Session AsioBuffer) politeRun = true := by
    decide +kernel
  obtain ⟨s, run, closed⟩ := (Option.any_eq_true _ _).mp runs
  exact ⟨s, run, of_decide_eq_true closed,
    unused_behind_close (reached_last run) (along_of_holdsAlong orderly)⟩

/-- A peer sends a byte and leaves, and nothing is written back. -/
def decodeBehindEofRun : List Action :=
  [.start [], .readDone (.ok [65]), .readDone (.error .eof), .runWork [.retrieve 1], .runIo]

/-- The read handler closes the socket before the read task has run, and the
task that the read task posts shuts the socket down once more. -/
theorem decodeBehindEofRun_uses_closed :
    ¬ ∀ (settings : Settings) (actions : List Action) (s : Session AsioBuffer),
      Reached (fun _ _ => True) (Steps settings) create actions s →
      UnusedBehindClose s.trace := by
  intro all
  have runs : (last (Session.step plainSettings) (create : Session AsioBuffer)
      decodeBehindEofRun).any
      (fun s => s.trace = [.fireConnect, .asyncReadSome, .asyncReadSome, .log .info, .shutdown] ++
        .closeSocket :: [.fireRead, .shutdown, .closeSocket, .fireClosed, .closeHandler]) =
        true := by
    decide +kernel
  obtain ⟨s, run, trace⟩ := (Option.any_eq_true _ _).mp runs
  have unused := all plainSettings decodeBehindEofRun s (reached_last run) _ _
    (of_decide_eq_true trace) .shutdown (by decide)
  cases unused

end Session

end FysobEngine.Net
