import FysobEngine.Net.SessionRelease

/-!
# What the handlers are told

The handlers of a session are told that it is connected, then of what has arrived,
and then that it is closed.
-/

namespace FysobEngine.Net

/-- The events that a session tells its pipeline. -/
def Event.fires : Event → Bool
  | .fireConnect | .fireRead | .fireClosed => true
  | _ => false

namespace Session

open Foundation.Runs

variable {β : Type} {settings : Settings}

/-- What the pipeline has been told. -/
def told (s : Session β) : List Event := s.trace.filter Event.fires

theorem note_told (s : Session β) (event : Event) :
    (s.note event).told = s.told ++ if event.fires then [event] else [] := by
  simp [told, note, List.filter_append, List.filter_singleton]

theorem note_silent {s : Session β} {event : Event} (silent : event.fires = false) :
    (s.note event).told = s.told := by
  rw [note_told, silent]
  exact List.append_nil _

/-- The pipeline is told nothing, or that the session is closed. -/
def Ends (s s' : Session β) : Prop := s'.told = s.told ∨ s'.told = s.told ++ [.fireClosed]

/-! ## The functions -/

theorem read_told (s : Session β) : s.read.told = s.told := note_silent rfl

theorem closeIfNecessary_told (s : Session β) : s.closeIfNecessary.told = s.told := by
  unfold closeIfNecessary
  split
  · split
    · exact note_silent rfl
    · rfl
  · rfl

theorem notifyClosed_told (s : Session β) :
    (s.notifyClosed settings).told = s.told ++ [.fireClosed] := by
  unfold notifyClosed
  dsimp only
  split
  · exact (note_silent rfl).trans (note_told s .fireClosed)
  · exact note_told s .fireClosed

theorem closeTask_told (s : Session β) :
    (s.closeTask settings).told = s.told ++ [.fireClosed] := by
  unfold closeTask
  rw [notifyClosed_told, note_silent rfl, note_silent rfl]

theorem closeAfterLastRead_told (s : Session β) : Ends s (s.closeAfterLastRead settings).1 := by
  unfold closeAfterLastRead
  split
  · dsimp only
    split
    · exact .inr (closeTask_told s)
    · exact .inl ((note_silent rfl).trans (note_silent rfl))
  · exact .inl rfl

theorem closeAfterLastWrite_told (s : Session β) : Ends s (s.closeAfterLastWrite settings) := by
  unfold closeAfterLastWrite
  split
  · dsimp only
    split
    · split
      · exact .inr (closeTask_told s)
      · exact .inl ((note_silent rfl).trans (note_silent rfl))
    · exact .inl (note_silent rfl)
  · exact .inl rfl

variable [SessionBuffer β]

theorem write_told (s : Session β) : s.write.told = s.told := by
  unfold write
  split
  · exact note_silent rfl
  · rfl

theorem append_told {s s' : Session β} {data : List UInt8}
    (done : s.append settings data = some s') : s'.told = s.told := by
  obtain ⟨writeBuffer, _, result⟩ := Option.bind_eq_some_iff.mp done
  cases result
  unfold notifyWrite
  dsimp only
  split
  · exact note_silent rfl
  · rfl

theorem perform_told {s s' : Session β} {call : HandlerCall}
    (done : s.perform settings call = some s') : s'.told = s.told := by
  cases call with
  | retrieve len =>
      obtain ⟨⟨readBuffer, invoked⟩, _, result⟩ := Option.bind_eq_some_iff.mp done
      cases invoked with
      | false =>
          cases result
          rfl
      | true =>
          cases result
          exact read_told { s with readBuffer := readBuffer }
  | write data => exact append_told done
  | postWrite argument =>
      cases done
      rfl
  | close =>
      cases done
      exact closeIfNecessary_told { s with closeFlag := true }

theorem performAll_told {s s' : Session β} {calls : List HandlerCall}
    (done : performAll settings calls s = some s') : s'.told = s.told := by
  induction calls generalizing s with
  | nil =>
      cases done
      rfl
  | cons call rest ih =>
      obtain ⟨middle, first, last⟩ := Option.bind_eq_some_iff.mp done
      exact (ih last).trans (perform_told first)

theorem fireRead_told {s s' : Session β} {decode : List HandlerCall}
    (done : s.fireRead settings decode = some s') : s'.told = s.told ++ [.fireRead] := by
  obtain ⟨middle, calls, result⟩ := Option.bind_eq_some_iff.mp done
  cases result
  exact (closeIfNecessary_told _).trans ((performAll_told calls).trans (note_told s .fireRead))

theorem start_told {s s' : Session β} {connect : List HandlerCall}
    (done : s.start settings connect = some s') : s'.told = s.told ++ [.fireConnect] := by
  obtain ⟨middle, calls, result⟩ := Option.bind_eq_some_iff.mp done
  cases result
  exact (read_told middle).trans ((performAll_told calls).trans (note_told s .fireConnect))

theorem handleRead_told {s s' : Session β} {result : Except ErrorCode (List UInt8)}
    (done : s.handleRead settings result = some s') : Ends s s' := by
  rcases handleRead_cases done with
    ⟨code, level, rfl, rfl⟩ | ⟨data, readBuffer, rfl, _, ⟨_, rfl⟩ | ⟨_, resumed, how, rfl⟩⟩
  · have logged : told { s.readEnded.note (.log level) with closeFlag := true } = s.told :=
      note_silent rfl
    unfold Ends
    rw [← logged]
    exact closeAfterLastRead_told _
  · exact closeAfterLastRead_told { s.readEnded with readBuffer := readBuffer }
  · refine .inl ?_
    rcases how with ⟨_, rfl⟩ | ⟨_, rfl⟩
    · exact read_told { s.readEnded with readBuffer := readBuffer }
    · rfl

theorem handleWrite_told {s s' : Session β} {result : Except ErrorCode Nat}
    (done : s.handleWrite settings result = some s') : Ends s s' := by
  rcases handleWrite_cases done with
    ⟨code, level, rfl, rfl⟩ | ⟨length, writeBuffer, invoked, rfl, _, ⟨_, rfl⟩ | ⟨_, rfl⟩⟩
  · have logged : told { s.writeEnded.note (.log level) with closeFlag := true } = s.told :=
      note_silent rfl
    unfold Ends
    rw [← logged]
    exact closeAfterLastWrite_told _
  · exact .inl (write_told (s.bytesSent writeBuffer length))
  · exact closeAfterLastWrite_told (s.bytesSent writeBuffer length)

theorem write_started (s : Session β) : s.write.started = s.started := by
  unfold write
  split <;> rfl

/-! ## The steps -/

/-- Only its start marks a session as started. -/
theorem step_started {s s' : Session β} {action : Action} (step : s.Steps settings action s') :
    s'.started = s.started ∨
      ∃ connect, action = .start connect ∧ s.started = false ∧ s'.started = true := by
  cases action with
  | start connect =>
      obtain ⟨fresh, last, _, rfl⟩ := step.start
      exact .inr ⟨connect, rfl, fresh, rfl⟩
  | readDone result =>
      obtain ⟨reads, _, done⟩ := step.readDone
      refine .inl ?_
      rcases handleRead_cases done with
        ⟨code, level, _, rfl⟩ | ⟨data, readBuffer, _, _, ⟨_, rfl⟩ | ⟨_, resumed, how, rfl⟩⟩
      · exact (closeAfterLastRead_ending _).keeps.started
      · exact (closeAfterLastRead_ending _).keeps.started
      · rcases how with ⟨_, rfl⟩ | ⟨_, rfl⟩ <;> rfl
  | writeDone operation result =>
      obtain ⟨data, _, ended, how, handled⟩ := step.writeDone
      have same : ended.started = s.started := by
        rcases how with rfl | ⟨bytes, rfl⟩ <;> rfl
      refine .inl (Eq.trans ?_ same)
      rcases handleWrite_cases handled with
        ⟨code, level, _, rfl⟩ | ⟨length, writeBuffer, invoked, _, _, ⟨_, rfl⟩ | ⟨_, rfl⟩⟩
      · exact (closeAfterLastWrite_ending _).keeps.started
      · exact write_started _
      · exact (closeAfterLastWrite_ending _).keeps.started
  | runIo =>
      obtain ⟨task, rest, _, ⟨_, rfl⟩ | ⟨_, rfl⟩⟩ := step.runIo
      · exact .inl (write_started _)
      · exact .inl (closeTask_ending _).keeps.started
  | runWork decode =>
      obtain ⟨task, rest, _, ⟨_, done⟩ | ⟨data, _, done⟩⟩ := step.runWork
      · obtain ⟨middle, calls, result⟩ := Option.bind_eq_some_iff.mp done
        cases result
        exact .inl ((closeIfNecessary_ending _).keeps.started.trans
          (performAll_handled calls).started)
      · exact .inl (append_keeps done).started
  | write data => exact .inl (append_keeps step).started
  | postWrite argument =>
      cases step
      exact .inl rfl
  | close =>
      cases step
      exact .inl (close_keeps s).started

/-- A step that tells of bytes runs a read task. -/
theorem step_told {s s' : Session β} {action : Action} (acc : Accounted settings 0 s)
    (step : s.Steps settings action s') :
    (∃ connect, action = .start connect ∧ s.started = false ∧ s'.started = true ∧
        s'.told = s.told ++ [.fireConnect]) ∨
      s'.started = s.started ∧
        (Ends s s' ∨ s.workReadCount ≠ 0 ∧ s'.told = s.told ++ [.fireRead]) := by
  rcases step_started step with kept | ⟨connect, rfl, fresh, marked⟩
  · refine .inr ⟨kept, ?_⟩
    cases action with
    | start connect =>
        obtain ⟨fresh, last, _, rfl⟩ := step.start
        have both : true = false := kept.trans fresh
        cases both
    | readDone result =>
        obtain ⟨reads, _, done⟩ := step.readDone
        have ends := handleRead_told done
        exact .inl ends
    | writeDone operation result =>
        obtain ⟨data, _, ended, how, handled⟩ := step.writeDone
        have ends := handleWrite_told handled
        have same : ended.told = s.told := by
          rcases how with rfl | ⟨bytes, rfl⟩
          · rfl
          · exact note_silent rfl
        unfold Ends at ends
        rw [same] at ends
        exact .inl ends
    | runIo =>
        obtain ⟨task, rest, _, ⟨_, rfl⟩ | ⟨_, rfl⟩⟩ := step.runIo
        · exact .inl (.inl (write_told { s with ioQueue := rest }))
        · exact .inl (.inr (closeTask_told { s with ioQueue := rest }))
    | runWork decode =>
        obtain ⟨task, rest, queue, ⟨rfl, done⟩ | ⟨data, _, done⟩⟩ := step.runWork
        · have fired := fireRead_told done
          refine .inr ⟨?_, fired⟩
          rw [acc.work, queue, List.count_cons_self]
          omega
        · have silent := append_told done
          exact .inl (.inl silent)
    | write data => exact .inl (.inl (append_told step))
    | postWrite argument =>
        cases step
        exact .inl (.inl rfl)
    | close =>
        cases step
        exact .inl (.inl (closeIfNecessary_told { s with closeFlag := true }))
  · obtain ⟨_, last, done, rfl⟩ := step.start
    have connects := start_told done
    exact .inl ⟨connect, rfl, fresh, marked, connects⟩

/-! ## The order of the events -/

/-- A session that is connected and has told of bytes so often. -/
def connected (times : Nat) : List Event := .fireConnect :: List.replicate times .fireRead

theorem connected_succ (times : Nat) : connected times ++ [.fireRead] = connected (times + 1) :=
  congrArg (List.cons Event.fireConnect) List.replicate_succ'.symm

theorem connected_open (times : Nat) : (connected times).count .fireClosed = 0 :=
  List.count_eq_zero.mpr fun member => by simp [connected] at member

/-- What the pipeline of a session may have been told: nothing before the connection
but the end, and nothing behind the end. -/
def Lifecycle (started : Bool) (events : List Event) : Prop :=
  if started then ∃ times, events = connected times ∨ events = connected times ++ [.fireClosed]
  else events = [] ∨ events = [.fireClosed]

/-- A session that is told to end is told so once. -/
theorem Lifecycle.ended {started : Bool} {events : List Event} (life : Lifecycle started events)
    (none : events.count .fireClosed = 0) : Lifecycle started (events ++ [.fireClosed]) := by
  cases started with
  | true =>
      obtain ⟨times, rfl | rfl⟩ := life
      · exact ⟨times, .inr rfl⟩
      · rw [List.count_append, List.count_singleton_self] at none
        omega
  | false =>
      rcases life with rfl | rfl
      · exact .inr rfl
      · cases none

theorem Lifecycle.fresh {events : List Event} (life : Lifecycle false events)
    (none : events.count .fireClosed = 0) : events = [] := by
  rcases life with rfl | rfl
  · rfl
  · cases none

theorem Lifecycle.running {events : List Event} (life : Lifecycle true events)
    (none : events.count .fireClosed = 0) : ∃ times, events = connected times := by
  obtain ⟨times, rfl | rfl⟩ := life
  · exact ⟨times, rfl⟩
  · rw [List.count_append, List.count_singleton_self] at none
    omega

omit [SessionBuffer β] in
theorem told_count (s : Session β) : s.told.count .fireClosed = s.trace.count .fireClosed :=
  List.count_filter rfl

omit [SessionBuffer β] in
theorem told_open {s : Session β} (none : s.ended .fireClosed = 0) :
    s.told.count .fireClosed = 0 :=
  (told_count s).trans (Nat.eq_zero_of_add_eq_zero_right none)

theorem step_lifecycle {s s' : Session β} {action : Action} (acc : Accounted settings 0 s)
    (once : Once .fireClosed s) (orderly : s.Orderly .fireClosed action)
    (life : Lifecycle s.started s.told) (step : s.Steps settings action s') :
    Lifecycle s'.started s'.told := by
  rcases step_told acc step with
    ⟨connect, rfl, fresh, marked, connects⟩ | ⟨kept, (same | ended) | ⟨work, fired⟩⟩
  · rw [fresh] at life
    rw [marked, connects, life.fresh (told_open orderly.1)]
    exact ⟨0, .inl rfl⟩
  · rw [kept, same]
    exact life
  · -- the session has not been told to end before, as it is told so once
    have few := (step_once (.inl rfl) acc once orderly (fun impossible => by cases impossible)
      step).once
    have count : s'.told.count .fireClosed ≤ 1 := by
      rw [told_count]
      exact Nat.le_trans (Nat.le_add_right _ _) few
    rw [ended, List.count_append, List.count_singleton_self] at count
    rw [kept, ended]
    exact life.ended (by omega)
  · have none : s.ended .fireClosed = 0 :=
      Nat.eq_zero_of_not_pos fun pos => work (once.quiet pos).workReadCount
    have running : s.started = true := by
      cases started : s.started with
      | true => rfl
      | false => exact absurd (acc.unstarted started).2.2 work
    rw [running] at life
    obtain ⟨times, open_⟩ := life.running (told_open none)
    rw [kept, running, fired, open_, connected_succ]
    exact ⟨times + 1, .inl rfl⟩

/-- In every run in which, once the session has notified or is to notify, no write task
starts a write and nobody closes or starts the session, the handlers of a session that has
been started are told of the connection first and once, then of bytes, then of the end, at
most once, and of nothing behind it; and when it is finished they have been told all of it.
Those of a session that was never started are told of the end at most once and of nothing
else. -/
theorem handlers_told {actions : List Action} {s : Session β}
    (run : Reached (fun _ _ => True) (Steps settings) create actions s)
    (orderly : Along (fun _ _ => True) (Steps settings) (Orderly .fireClosed)
      (create : Session β) actions) :
    Lifecycle s.started s.told ∧
      (s.Finished → s.started = true → ∃ times, s.told = connected times ++ [.fireClosed]) := by
  have reached : Sound settings s ∧ Once .fireClosed s ∧ Lifecycle s.started s.told := by
    refine run.invariant (I := fun s => Sound settings s ∧ Once .fireClosed s ∧
      Lifecycle s.started s.told) (fun s action s' ⟨sound, once, life⟩ _ ordered step => ?_)
      orderly ⟨create_sound, once_of_none rfl, .inl rfl⟩
    exact ⟨step_sound sound step, step_once (.inl rfl) sound.accounted once ordered
      (fun impossible => by cases impossible) step,
      step_lifecycle sound.accounted once ordered life step⟩
  obtain ⟨sound, _, life⟩ := reached
  refine ⟨life, fun finished started => ?_⟩
  have closed := (sound.notified finished).1
  rw [← told_count] at closed
  rw [started] at life
  obtain ⟨times, open_ | ended⟩ := life
  · rw [open_, connected_open] at closed
    exact absurd closed (Nat.lt_irrefl 0)
  · exact ⟨times, ended⟩

theorem politeRun_told : ∃ s : Session AsioBuffer,
    last (Session.step plainSettings) create politeRun = some s ∧
      ∃ times, s.told = connected times ++ [.fireClosed] := by
  have runs : (last (Session.step plainSettings) (create : Session AsioBuffer) politeRun).any
      (fun s => s.started = true ∧ s.closeFlag = true ∧ s.reads = 0 ∧ s.writes = [] ∧
        s.ioQueue = [] ∧ s.workQueue = []) = true := by
    decide +kernel
  have orderly : holdsAlong (Session.step plainSettings) (Orderly .fireClosed)
      (create : Session AsioBuffer) politeRun = true := by
    decide +kernel
  obtain ⟨s, run, facts⟩ := (Option.any_eq_true _ _).mp runs
  obtain ⟨started, flag, reads, writes, ioQueue, workQueue⟩ := of_decide_eq_true facts
  exact ⟨s, run, (handlers_told (reached_last run) (along_of_holdsAlong orderly)).2
    ⟨flag, reads, writes, ioQueue, workQueue⟩ started⟩

end Session

end FysobEngine.Net
