import FysobEngine.Net.Session

/-!
# Tasks in front of a session's own

No function of a session looks at the tasks that are queued. So a session behind
some queued tasks does what it does alone, and its own tasks come behind those.
-/

namespace FysobEngine.Net.Session

variable {β : Type}

/-- Some tasks are queued in front of those of a session. -/
def ahead (io : List IoTask) (work : List WorkTask) (s : Session β) : Session β :=
  { s with ioQueue := io ++ s.ioQueue, workQueue := work ++ s.workQueue }

variable {io : List IoTask} {work : List WorkTask} (s : Session β)

section Fields

@[simp] theorem ahead_readBuffer : (s.ahead io work).readBuffer = s.readBuffer := rfl

@[simp] theorem ahead_writeBuffer : (s.ahead io work).writeBuffer = s.writeBuffer := rfl

@[simp] theorem ahead_pendingWriteLen :
    (s.ahead io work).pendingWriteLen = s.pendingWriteLen := rfl

@[simp] theorem ahead_reading : (s.ahead io work).reading = s.reading := rfl

@[simp] theorem ahead_writing : (s.ahead io work).writing = s.writing := rfl

@[simp] theorem ahead_workReadCount : (s.ahead io work).workReadCount = s.workReadCount := rfl

@[simp] theorem ahead_closeFlag : (s.ahead io work).closeFlag = s.closeFlag := rfl

@[simp] theorem ahead_reads : (s.ahead io work).reads = s.reads := rfl

@[simp] theorem ahead_writes : (s.ahead io work).writes = s.writes := rfl

end Fields

theorem ahead_note (event : Event) :
    (s.ahead io work).note event = (s.note event).ahead io work := rfl

theorem ahead_postIo (task : IoTask) :
    (s.ahead io work).postIo task = (s.postIo task).ahead io work := by
  simp only [ahead, postIo, List.append_assoc]

theorem ahead_postWork (task : WorkTask) :
    (s.ahead io work).postWork task = (s.postWork task).ahead io work := by
  simp only [ahead, postWork, List.append_assoc]

theorem ahead_closeIfNecessary :
    (s.ahead io work).closeIfNecessary = s.closeIfNecessary.ahead io work := by
  simp only [closeIfNecessary, apply_ite (ahead io work), ahead_note, ahead_postIo,
    ahead_closeFlag, ahead_writing, ahead_workReadCount, ahead_reading]

theorem ahead_close : (s.ahead io work).close = s.close.ahead io work :=
  ahead_closeIfNecessary { s with closeFlag := true }

variable (settings : Settings)

theorem ahead_notifyClosed :
    (s.ahead io work).notifyClosed settings = (s.notifyClosed settings).ahead io work := by
  simp only [notifyClosed, apply_ite (ahead io work), ahead_note]

theorem ahead_closeTask :
    (s.ahead io work).closeTask settings = (s.closeTask settings).ahead io work := by
  simp only [closeTask, ahead_note, ahead_notifyClosed]

theorem ahead_closeAfterLastRead :
    (s.ahead io work).closeAfterLastRead settings =
      ((s.closeAfterLastRead settings).1.ahead io work, (s.closeAfterLastRead settings).2) := by
  unfold closeAfterLastRead
  by_cases closing : (s.closeFlag && !s.writing) = true
  · refine (if_pos closing).trans ?_
    rw [if_pos closing]
    by_cases none : s.workReadCount = 0
    · refine (if_pos none).trans ?_
      rw [if_pos (show ((s.note .shutdown).note .closeSocket).workReadCount = 0 from none)]
      simp only [ahead_note, ahead_notifyClosed]
    · refine (if_neg none).trans ?_
      rw [if_neg (show ¬ ((s.note .shutdown).note .closeSocket).workReadCount = 0 from none)]
      rfl
  · refine (if_neg closing).trans ?_
    rw [if_neg closing]

theorem ahead_closeAfterLastWrite :
    (s.ahead io work).closeAfterLastWrite settings =
      (s.closeAfterLastWrite settings).ahead io work := by
  simp only [closeAfterLastWrite, apply_ite (ahead io work), ahead_closeFlag, ahead_note,
    ahead_reading, ahead_workReadCount, ahead_notifyClosed]

variable [SessionBuffer β]

theorem ahead_write : (s.ahead io work).write = s.write.ahead io work := by
  simp only [write, apply_ite (ahead io work), ahead_writing, ahead_pendingWriteLen]
  rfl

theorem ahead_notifyWrite (length : Nat) :
    (s.ahead io work).notifyWrite settings length =
      (s.notifyWrite settings length).ahead io work := by
  have posted := @ahead_postIo _ io work
    { s with pendingWriteLen := s.pendingWriteLen + length } .write
  unfold notifyWrite
  by_cases above : settings.writeHighWaterMask ≠ 0 ∧ settings.writeHighWaterMaskHandler ∧
      SessionBuffer.writableBytes s.writeBuffer > settings.writeHighWaterMask
  · refine (if_pos above).trans ?_
    refine Eq.trans ?_ (congrArg (ahead io work) (if_pos above)).symm
    exact congrArg (note · .writeHighWaterMaskHandler) posted
  · refine (if_neg above).trans ?_
    exact posted.trans (congrArg (ahead io work) (if_neg above)).symm

theorem ahead_append (data : List UInt8) :
    (s.ahead io work).append settings data = (s.append settings data).map (ahead io work) := by
  simp only [append, ahead_writeBuffer]
  cases SessionBuffer.append s.writeBuffer data with
  | none => rfl
  | some writeBuffer =>
      exact congrArg some
        (ahead_notifyWrite { s with writeBuffer := writeBuffer } settings data.length)

omit settings in
theorem ahead_retrieve (len : Nat) :
    (s.ahead io work).retrieve len = (s.retrieve len).map (ahead io work) := by
  simp only [retrieve, ahead_readBuffer]
  cases SessionBuffer.retrieve s.readBuffer len with
  | none => rfl
  | some result =>
      obtain ⟨readBuffer, invoked⟩ := result
      cases invoked with
      | true => rfl
      | false => rfl

theorem ahead_perform (call : HandlerCall) :
    (s.ahead io work).perform settings call = (s.perform settings call).map (ahead io work) := by
  cases call with
  | retrieve len => exact ahead_retrieve s len
  | write data => exact ahead_append s settings data
  | postWrite argument => exact congrArg some (ahead_postWork s (.write argument.queued))
  | close => exact congrArg some (ahead_close s)

theorem ahead_performAll (calls : List HandlerCall) :
    performAll settings calls (s.ahead io work) =
      (performAll settings calls s).map (ahead io work) := by
  induction calls generalizing s with
  | nil => rfl
  | cons call rest ih =>
      rw [performAll, performAll, ahead_perform]
      cases s.perform settings call with
      | none => rfl
      | some s' => exact ih s'

theorem ahead_start (connect : List HandlerCall) :
    (s.ahead io work).start settings connect = (s.start settings connect).map (ahead io work) := by
  unfold start
  rw [ahead_note, ahead_performAll]
  cases performAll settings connect (s.note .fireConnect) with
  | none => rfl
  | some s' => rfl

theorem ahead_fireRead (decode : List HandlerCall) :
    (s.ahead io work).fireRead settings decode =
      (s.fireRead settings decode).map (ahead io work) := by
  unfold fireRead
  rw [ahead_note, ahead_performAll]
  cases performAll settings decode (s.note .fireRead) with
  | none => rfl
  | some s' =>
      exact congrArg some (ahead_closeIfNecessary { s' with
        handleCount := subtract s'.handleCount 1
        workReadCount := subtract s'.workReadCount 1 })

/-- What `handle_read` does behind a read that was not the last: it reads on, or arms
the read buffer, and posts a read task. -/
def readOn (s : Session β) : Session β :=
  let s :=
    if settings.readHighWaterMask = 0 ∨
        SessionBuffer.readableBytes s.readBuffer < settings.readHighWaterMask then
      s.read
    else
      let mask := settings.readHighWaterMask
      { s with readBuffer := SessionBuffer.setNotifyBehindHighWaterMask s.readBuffer mask }
  postWork { s with workReadCount := s.workReadCount + 1 } .fireRead

theorem handleRead_ok (data : List UInt8) :
    s.handleRead settings (.ok data) =
      (SessionBuffer.receive s.readBuffer data).map fun readBuffer =>
        let ended := closeAfterLastRead settings { s with
          handleCount := s.handleCount + 1
          reading := false
          readBuffer := readBuffer }
        if ended.2 then ended.1 else ended.1.readOn settings := by
  unfold handleRead
  dsimp only
  cases SessionBuffer.receive s.readBuffer data with
  | none => rfl
  | some readBuffer => exact (apply_ite some _ _ _).symm

theorem ahead_readOn :
    (s.ahead io work).readOn settings = (s.readOn settings).ahead io work := by
  unfold readOn
  by_cases below : settings.readHighWaterMask = 0 ∨
      SessionBuffer.readableBytes s.readBuffer < settings.readHighWaterMask
  · rw [if_pos below, ahead_readBuffer, if_pos below]
    exact ahead_postWork { s.read with workReadCount := s.read.workReadCount + 1 } .fireRead
  · rw [if_neg below, ahead_readBuffer, if_neg below]
    exact ahead_postWork { s with
      readBuffer :=
        SessionBuffer.setNotifyBehindHighWaterMask s.readBuffer settings.readHighWaterMask
      workReadCount := s.workReadCount + 1 } .fireRead

theorem ahead_handleRead (result : Except ErrorCode (List UInt8)) :
    (s.ahead io work).handleRead settings result =
      (s.handleRead settings result).map (ahead io work) := by
  cases result with
  | error code =>
      have closed := @ahead_closeAfterLastRead _ io work
        { note { s with handleCount := s.handleCount + 1, reading := false }
            (.log (if code = .operationAborted ∨ code = .eof then .info else .fatal)) with
          closeFlag := true } settings
      exact congrArg some (congrArg Prod.fst closed)
  | ok data =>
      rw [handleRead_ok, handleRead_ok, ahead_readBuffer, Option.map_map]
      refine congrArg (Option.map · _) (funext fun readBuffer => ?_)
      have closed := @ahead_closeAfterLastRead _ io work { s with
        handleCount := s.handleCount + 1
        reading := false
        readBuffer := readBuffer } settings
      dsimp only [Function.comp_apply]
      refine (congrArg (fun ended : Session β × Bool =>
        if ended.2 then ended.1 else ended.1.readOn settings) closed).trans ?_
      dsimp only
      rw [apply_ite (ahead io work), ahead_readOn]

theorem ahead_handleWrite (result : Except ErrorCode Nat) :
    (s.ahead io work).handleWrite settings result =
      (s.handleWrite settings result).map (ahead io work) := by
  cases result with
  | error code =>
      exact congrArg some (@ahead_closeAfterLastWrite _ io work
        { note { s with handleCount := subtract s.handleCount 1, writing := false }
            (.log (if code = .operationAborted then .info else .fatal)) with
          closeFlag := true } settings)
  | ok length =>
      unfold handleWrite
      dsimp only [ahead_writeBuffer]
      cases SessionBuffer.retrieve s.writeBuffer length with
      | none => rfl
      | some retrieved =>
          let ended : Session β := { s with
            handleCount := subtract s.handleCount 1
            writing := false
            writeBuffer := retrieved.1
            pendingWriteLen := subtract s.pendingWriteLen length }
          refine congrArg some ?_
          by_cases more : ended.pendingWriteLen > 0
          · refine (if_pos more).trans ?_
            refine (ahead_write ended).trans (congrArg (ahead io work) ?_)
            exact (if_pos more).symm
          · refine (if_neg more).trans ?_
            refine (ahead_closeAfterLastWrite ended settings).trans (congrArg (ahead io work) ?_)
            exact (if_neg more).symm

theorem ahead_writeDone (data : List UInt8) (result : Except ErrorCode Nat) :
    (s.ahead io work).writeDone settings data result =
      (s.writeDone settings data result).map (ahead io work) := by
  cases result with
  | error code => exact ahead_handleWrite s settings (.error code)
  | ok length =>
      unfold writeDone
      dsimp only
      by_cases inside : length ≤ data.length
      · rw [if_pos inside, if_pos inside, ahead_note]
        exact ahead_handleWrite (s.note (.sent (data.take length))) settings (.ok length)
      · rw [if_neg inside, if_neg inside]
        rfl

/-- Whether an action runs a queued task. -/
def Action.runs : Action → Bool
  | .runIo => true
  | .runWork _ => true
  | _ => false

/-- A step that runs no task is the same behind any tasks. -/
theorem ahead_step {action : Action} (runs : action.runs = false) :
    (s.ahead io work).step settings action = (s.step settings action).map (ahead io work) := by
  cases action with
  | start connect =>
      unfold step
      dsimp only
      by_cases started : s.started = true
      · refine (if_pos started).trans ?_
        rw [if_pos started]
        rfl
      · refine (if_neg started).trans ?_
        rw [if_neg started, ahead_start, Option.map_map, Option.map_map]
        rfl
  | readDone result =>
      unfold step
      dsimp only [ahead_reads]
      cases s.reads with
      | zero => rfl
      | succ reads => exact ahead_handleRead { s with reads := reads } settings result
  | writeDone operation result =>
      unfold step
      dsimp only [ahead_writes]
      cases s.writes[operation]? with
      | none => rfl
      | some data =>
          exact ahead_writeDone { s with writes := s.writes.eraseIdx operation } settings data
            result
  | runIo => cases runs
  | runWork decode => cases runs
  | write data => exact ahead_append s settings data
  | postWrite argument => exact congrArg some (ahead_postWork s (.write argument.queued))
  | close => exact congrArg some (ahead_close s)

/-- The first task of a queue runs as if it were the only one. -/
theorem ahead_runIo {task : IoTask} (none : s.ioQueue = []) :
    (s.ahead (task :: io) work).step settings .runIo =
      (({ s with ioQueue := [task] } : Session β).step settings .runIo).map (ahead io work) := by
  have tasks : ({ s.ahead (task :: io) work with ioQueue := io } : Session β) =
      ahead io work { s with ioQueue := [] } := by
    simp [ahead]
  have queue : (s.ahead (task :: io) work).ioQueue = task :: io := by
    simp [ahead, none]
  unfold step
  dsimp only
  rw [queue]
  cases task with
  | write =>
      dsimp only
      rw [tasks, ahead_write]
      rfl
  | close =>
      dsimp only
      rw [tasks, ahead_closeTask]
      rfl

theorem ahead_runWork {task : WorkTask} (none : s.workQueue = []) (decode : List HandlerCall) :
    (s.ahead io (task :: work)).step settings (.runWork decode) =
      (({ s with workQueue := [task] } : Session β).step settings (.runWork decode)).map
        (ahead io work) := by
  have tasks : ({ s.ahead io (task :: work) with workQueue := work } : Session β) =
      ahead io work { s with workQueue := [] } := by
    simp [ahead]
  have queue : (s.ahead io (task :: work)).workQueue = task :: work := by
    simp [ahead, none]
  unfold step
  dsimp only
  rw [queue]
  cases task with
  | fireRead =>
      dsimp only
      rw [tasks, ahead_fireRead]
  | write data =>
      dsimp only
      rw [tasks, ahead_append]

end FysobEngine.Net.Session
