import FysobEngine.Net.SessionClose

/-!
# A closing session ends

Where a closing session finds something outstanding it leaves its end to a later
step. Some step that ends it is always still to come, or one has been taken.
-/

namespace FysobEngine.Net.Session

open Foundation.Runs

variable {β : Type} {settings : Settings}

/-- A session that is to close and for which nothing is outstanding or queued. -/
structure Finished (s : Session β) : Prop where
  closeFlag : s.closeFlag = true
  reads : s.reads = 0
  writes : s.writes = []
  ioQueue : s.ioQueue = []
  workQueue : s.workQueue = []

/-- Once nothing of a closing session is outstanding it has ended, or the task
that ends it is queued. -/
def Released (s : Session β) : Prop := Quiet s → 0 < s.ended .fireClosed

/-! ## Parts that end a session with nothing outstanding -/

theorem closeTask_released (s : Session β) : 0 < (s.closeTask settings).ended .fireClosed := by
  rw [closeTask_ended (.inl rfl)]
  exact Nat.succ_pos _

/-- Closing changes nothing but the queue and the trace. -/
theorem Ending.quiet {s s' : Session β} (ending : Ending s s') (quiet : Quiet s') : Quiet s := by
  obtain ⟨events, tasks, _, _, rfl⟩ := ending
  exact ⟨quiet.closeFlag, quiet.reading, quiet.writing, quiet.workReadCount⟩

theorem closeAfterLastRead_released (s : Session β) :
    Released (s.closeAfterLastRead settings).1 := by
  intro quiet
  have before := (closeAfterLastRead_ending s).quiet quiet
  have closing : (s.closeFlag && !s.writing) = true := by
    rw [before.closeFlag, before.writing]
    rfl
  unfold closeAfterLastRead
  rw [if_pos closing]
  dsimp only
  split
  · exact closeTask_released s
  · rename_i busy
    exact absurd before.workReadCount busy

theorem closeAfterLastWrite_released (s : Session β) :
    Released (s.closeAfterLastWrite settings) := by
  intro quiet
  have before := (closeAfterLastWrite_ending s).quiet quiet
  unfold closeAfterLastWrite
  rw [if_pos before.closeFlag]
  dsimp only
  split
  · split
    · exact closeTask_released s
    · rename_i busy
      exact absurd before.workReadCount busy
  · rename_i busy
    simp [note, before.reading] at busy

theorem closeIfNecessary_released (s : Session β) : Released s.closeIfNecessary := by
  intro quiet
  have before := (closeIfNecessary_ending s).quiet quiet
  unfold closeIfNecessary
  rw [if_pos (by simp [before.closeFlag, before.writing, before.workReadCount]),
    if_neg (by simp [before.reading]), postIo_ended]
  exact Nat.succ_pos _

/-! ## The steps -/

variable [SessionBuffer β]

theorem append_quiet {s s' : Session β} {data : List UInt8}
    (done : s.append settings data = some s') (quiet : Quiet s') : Quiet s := by
  obtain ⟨writeBuffer, _, result⟩ := Option.bind_eq_some_iff.mp done
  cases result
  unfold notifyWrite at quiet
  dsimp only at quiet
  split at quiet
  · exact ⟨quiet.closeFlag, quiet.reading, quiet.writing, quiet.workReadCount⟩
  · exact ⟨quiet.closeFlag, quiet.reading, quiet.writing, quiet.workReadCount⟩

theorem append_released {s s' : Session β} {data : List UInt8} (released : Released s)
    (done : s.append settings data = some s') : Released s' := by
  intro quiet
  rw [append_ended (.inl rfl) done]
  exact released (append_quiet done quiet)

/-- A write task that finds nothing to write does nothing. -/
theorem write_released {s : Session β} (released : Released s) : Released s.write := by
  unfold write
  split
  · intro quiet
    cases quiet.writing
  · exact released

theorem handleRead_released {s s' : Session β} {result : Except ErrorCode (List UInt8)}
    (done : s.handleRead settings result = some s') : Released s' := by
  rcases handleRead_cases done with
    ⟨code, level, _, rfl⟩ | ⟨data, readBuffer, _, _, ⟨_, rfl⟩ | ⟨_, resumed, _, rfl⟩⟩
  · exact closeAfterLastRead_released _
  · exact closeAfterLastRead_released _
  · -- the read task that was posted takes over
    intro quiet
    cases quiet.workReadCount

theorem handleWrite_released {s s' : Session β} {result : Except ErrorCode Nat}
    (done : s.handleWrite settings result = some s') : Released s' := by
  rcases handleWrite_cases done with
    ⟨code, level, _, rfl⟩ | ⟨length, writeBuffer, invoked, _, _, ⟨left, rfl⟩ | ⟨_, rfl⟩⟩
  · exact closeAfterLastWrite_released _
  · -- the write that is started takes over
    intro quiet
    have started : (s.bytesSent writeBuffer length).write.writing = true := by
      unfold write
      rw [if_pos (by simpa [bytesSent, writeEnded] using Nat.pos_of_ne_zero left)]
    rw [quiet.writing] at started
    cases started
  · exact closeAfterLastWrite_released _

theorem step_released {s s' : Session β} {action : Action} (released : Released s)
    (step : s.Steps settings action s') : Released s' := by
  cases action with
  | start connect =>
      obtain ⟨_, last, done, rfl⟩ := step.start
      obtain ⟨middle, _, result⟩ := Option.bind_eq_some_iff.mp done
      cases result
      intro quiet
      cases quiet.reading
  | readDone result =>
      obtain ⟨reads, _, done⟩ := step.readDone
      exact handleRead_released done
  | writeDone operation result =>
      obtain ⟨data, _, ended, _, handled⟩ := step.writeDone
      exact handleWrite_released handled
  | runIo =>
      obtain ⟨task, rest, queue, ⟨rfl, rfl⟩ | ⟨_, rfl⟩⟩ := step.runIo
      · have taken : Released { s with ioQueue := rest } := by
          intro quiet
          have before := released (quiet.queues s.ioQueue s.workQueue)
          rwa [ended_taken queue] at before
        exact write_released taken
      · exact fun _ => closeTask_released _
  | runWork decode =>
      obtain ⟨task, rest, _, ⟨_, done⟩ | ⟨data, _, done⟩⟩ := step.runWork
      · obtain ⟨middle, _, result⟩ := Option.bind_eq_some_iff.mp done
        cases result
        exact closeIfNecessary_released _
      · have taken : Released { s with workQueue := rest } :=
          fun quiet => released (quiet.queues s.ioQueue s.workQueue)
        exact append_released taken done
  | write data => exact append_released released step
  | postWrite argument =>
      cases step
      exact fun quiet => released (quiet.queues s.ioQueue s.workQueue)
  | close =>
      cases step
      exact closeIfNecessary_released _

theorem create_released : Released (create : Session β) := by
  intro quiet
  cases quiet.closeFlag

/-- What makes the end of a session certain. -/
structure Sound (settings : Settings) (s : Session β) : Prop where
  accounted : Accounted settings 0 s
  released : Released s

theorem create_sound : Sound settings (create : Session β) := ⟨create_accounted, create_released⟩

theorem step_sound {s s' : Session β} {action : Action} (sound : Sound settings s)
    (step : s.Steps settings action s') : Sound settings s' :=
  ⟨step_accounted sound.accounted step, step_released sound.released step⟩

theorem Finished.quiet {s : Session β} (finished : Finished s) (acc : Accounted settings 0 s) :
    Quiet s where
  closeFlag := finished.closeFlag
  reading := by
    have count := acc.reads
    rw [finished.reads] at count
    cases reading : s.reading with
    | false => rfl
    | true => simp [reading] at count
  writing := by
    have count := acc.writes
    rw [finished.writes] at count
    cases writing : s.writing with
    | false => rfl
    | true => simp [writing] at count
  workReadCount := by
    rw [acc.work, finished.workQueue]
    rfl

/-- A session that is finished has notified its handlers and, if it has a close
handler, its owner. -/
theorem Sound.notified {s : Session β} (sound : Sound settings s) (finished : Finished s) :
    0 < s.trace.count .fireClosed ∧
      (settings.closeHandler = true → 0 < s.trace.count .closeHandler) := by
  have closed : 0 < s.trace.count .fireClosed := by
    have count := sound.released (finished.quiet sound.accounted)
    simpa [ended, finished.ioQueue] using count
  refine ⟨closed, fun set => ?_⟩
  rw [sound.accounted.notified, if_pos set]
  exact closed

end FysobEngine.Net.Session
