import FysobEngine.Foundation.Runs
import FysobEngine.Net.QueueBuffer
import FysobEngine.Net.SessionInvariant

/-!
# How a session goes on reading

A read completion starts the next read, or stores a handler that a `retrieve`
invokes once fewer bytes than the mask are left. So either a read is outstanding
or a handler is stored and there are bytes enough to retrieve.
-/

namespace FysobEngine.Net

/-- What happens to the high-water handler of a read buffer. -/
inductive HighWaterCall where
  | stored
  | invoked
  deriving DecidableEq, Repr

/-- A handler is stored and invoked in turn, and the last one may still be stored. -/
def Alternates (calls : List HighWaterCall) (armed : Bool) : Prop :=
  ∃ count, calls = (List.replicate count [HighWaterCall.stored, .invoked]).flatten ++
    if armed then [.stored] else []

theorem Alternates.stored {calls : List HighWaterCall} (alternates : Alternates calls false) :
    Alternates (calls ++ [.stored]) true := by
  obtain ⟨count, rfl⟩ := alternates
  exact ⟨count, by simp⟩

theorem Alternates.invoked {calls : List HighWaterCall} (alternates : Alternates calls true) :
    Alternates (calls ++ [.invoked]) false := by
  obtain ⟨count, rfl⟩ := alternates
  exact ⟨count + 1, by simp [List.replicate_succ']⟩

namespace Session

open Foundation.Runs

section Handler

variable {β : Type} {settings : Settings} [SessionBuffer β]

/-- Whether a call of a handler invokes the stored handler. -/
def retrieveCalls (s : Session β) : HandlerCall → List HighWaterCall
  | .retrieve len =>
      match SessionBuffer.retrieve s.readBuffer len with
      | some (_, true) => [.invoked]
      | _ => []
  | .write _ | .postWrite _ | .close => []

/-- What an action does with the high-water handler of the read buffer. -/
def highWaterCalls (settings : Settings) (s : Session β) : Action → List HighWaterCall
  | .start connect => produced (perform settings) retrieveCalls (s.note .fireConnect) connect
  | .runWork decode =>
      match s.workQueue with
      | .fireRead :: rest =>
          produced (perform settings) retrieveCalls (note { s with workQueue := rest } .fireRead)
            decode
      | _ => []
  | .readDone (.ok data) =>
      match SessionBuffer.receive s.readBuffer data with
      | some readBuffer =>
          if (s.closeFlag && !s.writing) = true ∨ ReadsOn settings readBuffer then []
          else [.stored]
      | none => []
  | .readDone (.error _) | .writeDone _ _ | .runIo | .write _ | .postWrite _ | .close => []

/-! ## The handler is invoked once for each time it is stored -/

theorem retrieve_alternates {calls : List HighWaterCall} {s s' : Session β} {len : Nat}
    (alternates : Alternates calls (SessionBuffer.armed s.readBuffer))
    (done : s.retrieve len = some s') :
    Alternates (calls ++ s.retrieveCalls (.retrieve len)) (SessionBuffer.armed s'.readBuffer) := by
  obtain ⟨⟨readBuffer, invoked⟩, retrieved, result⟩ := Option.bind_eq_some_iff.mp done
  obtain ⟨before, after⟩ := SessionBuffer.retrieve_armed retrieved
  dsimp only [retrieveCalls]
  rw [retrieved]
  cases invoked with
  | false =>
      cases result
      rw [Bool.or_false] at before
      simpa [before] using alternates
  | true =>
      cases result
      rw [Bool.or_true] at before
      change Alternates _ (SessionBuffer.armed readBuffer)
      rw [after rfl]
      exact (before ▸ alternates).invoked

theorem perform_alternates {calls : List HighWaterCall} {s s' : Session β} {call : HandlerCall}
    (alternates : Alternates calls (SessionBuffer.armed s.readBuffer))
    (done : s.perform settings call = some s') :
    Alternates (calls ++ s.retrieveCalls call) (SessionBuffer.armed s'.readBuffer) := by
  cases call with
  | retrieve len => exact retrieve_alternates alternates done
  | write data =>
      rw [(append_keeps done).readBuffer]
      simpa [retrieveCalls] using alternates
  | postWrite argument =>
      cases done
      simpa [retrieveCalls, postWork] using alternates
  | close =>
      cases done
      rw [(close_keeps s).readBuffer]
      simpa [retrieveCalls] using alternates

theorem performAll_alternates {made : List HighWaterCall} {s s' : Session β}
    {calls : List HandlerCall} (alternates : Alternates made (SessionBuffer.armed s.readBuffer))
    (done : performAll settings calls s = some s') :
    Alternates (made ++ produced (perform settings) retrieveCalls s calls)
      (SessionBuffer.armed s'.readBuffer) := by
  induction calls generalizing s made with
  | nil =>
      cases done
      simpa [produced] using alternates
  | cons call rest ih =>
      obtain ⟨middle, first, last⟩ := Option.bind_eq_some_iff.mp done
      have whole := ih (perform_alternates alternates first) last
      simpa [produced, first, List.append_assoc] using whole

theorem handleRead_alternates {made : List HighWaterCall} {s s' : Session β} {reads : Nat}
    {result : Except ErrorCode (List UInt8)} (acc : Accounted settings 0 s)
    (alternates : Alternates made (SessionBuffer.armed s.readBuffer))
    (outstanding : s.reads = reads + 1)
    (done : handleRead settings { s with reads := reads } result = some s') :
    Alternates (made ++ s.highWaterCalls settings (.readDone result))
      (SessionBuffer.armed s'.readBuffer) := by
  have unarmed := (acc.busy (acc.reading_of_reads outstanding).1).2
  rw [unarmed] at alternates
  rcases handleRead_cases done with
    ⟨code, level, rfl, rfl⟩ |
      ⟨data, readBuffer, rfl, received, ⟨closing, rfl⟩ | ⟨waits, _, how, rfl⟩⟩
  · rw [(closeAfterLastRead_ending _).keeps.readBuffer]
    change Alternates (made ++ []) (SessionBuffer.armed s.readBuffer)
    rwa [List.append_nil, unarmed]
  · have still := (SessionBuffer.receive_armed received).trans unarmed
    rw [(closeAfterLastRead_ending _).keeps.readBuffer]
    change Alternates _ (SessionBuffer.armed readBuffer)
    have received' : SessionBuffer.receive s.readBuffer data = some readBuffer := received
    dsimp only [highWaterCalls]
    rw [received', still]
    dsimp only
    rw [if_pos (.inl closing), List.append_nil]
    exact alternates
  · have still := (SessionBuffer.receive_armed received).trans unarmed
    have received' : SessionBuffer.receive s.readBuffer data = some readBuffer := received
    dsimp only [highWaterCalls]
    rw [received']
    dsimp only
    rcases how with ⟨below, rfl⟩ | ⟨above, rfl⟩
    · rw [if_pos (.inr below), List.append_nil]
      change Alternates made (SessionBuffer.armed readBuffer)
      rw [still]
      exact alternates
    · have stores : ¬ ((s.closeFlag && !s.writing) = true ∨ ReadsOn settings readBuffer) := by
        rintro (closing | below)
        · exact absurd closing (by simp_all)
        · exact above below
      rw [if_neg stores]
      change Alternates _ (SessionBuffer.armed (SessionBuffer.setNotifyBehindHighWaterMask
        readBuffer settings.readHighWaterMask))
      rw [SessionBuffer.set_armed]
      exact alternates.stored

/-! ## Steps that do not read -/

omit [SessionBuffer β] in
/-- The read side of a session is as it was. -/
structure SameReading (s s' : Session β) : Prop where
  readBuffer : s'.readBuffer = s.readBuffer
  reading : s'.reading = s.reading
  started : s'.started = s.started
  closeFlag : s.closeFlag = true → s'.closeFlag = true

omit [SessionBuffer β] in
theorem SameReading.refl (s : Session β) : SameReading s s := ⟨rfl, rfl, rfl, id⟩

omit [SessionBuffer β] in
theorem SameReading.trans {s middle s' : Session β} (first : SameReading s middle)
    (second : SameReading middle s') : SameReading s s' :=
  ⟨second.readBuffer.trans first.readBuffer, second.reading.trans first.reading,
    second.started.trans first.started, fun flag => second.closeFlag (first.closeFlag flag)⟩

omit [SessionBuffer β] in
theorem Keeps.sameReading {s s' : Session β} (keeps : Keeps s s') : SameReading s s' :=
  ⟨keeps.readBuffer, keeps.reading, keeps.started, keeps.closeFlag⟩

omit [SessionBuffer β] in
/-- Moreover no read completes and none is started. -/
structure Unread (s s' : Session β) : Prop extends SameReading s s' where
  reads : s'.reads = s.reads

omit [SessionBuffer β] in
theorem Unread.refl (s : Session β) : Unread s s := ⟨.refl s, rfl⟩

omit [SessionBuffer β] in
theorem Unread.trans {s middle s' : Session β} (first : Unread s middle)
    (second : Unread middle s') : Unread s s' :=
  ⟨first.toSameReading.trans second.toSameReading, second.reads.trans first.reads⟩

omit [SessionBuffer β] in
theorem Keeps.unread {s s' : Session β} (keeps : Keeps s s') : Unread s s' :=
  ⟨keeps.sameReading, keeps.reads⟩

theorem write_unread (s : Session β) : Unread s s.write := by
  unfold write
  split
  · exact ⟨⟨rfl, rfl, rfl, id⟩, rfl⟩
  · exact Unread.refl s

theorem handleWrite_unread {s s' : Session β} {result : Except ErrorCode Nat}
    (done : s.handleWrite settings result = some s') : Unread s s' := by
  rcases handleWrite_cases done with
    ⟨code, level, _, rfl⟩ | ⟨length, writeBuffer, invoked, _, _, ⟨_, rfl⟩ | ⟨_, rfl⟩⟩
  · have logged : Unread s { s.writeEnded.note (.log level) with closeFlag := true } :=
      ⟨⟨rfl, rfl, rfl, fun _ => rfl⟩, rfl⟩
    exact logged.trans (closeAfterLastWrite_ending _).keeps.unread
  · have sent : Unread s (s.bytesSent writeBuffer length) := ⟨⟨rfl, rfl, rfl, id⟩, rfl⟩
    exact sent.trans (write_unread _)
  · have sent : Unread s (s.bytesSent writeBuffer length) := ⟨⟨rfl, rfl, rfl, id⟩, rfl⟩
    exact sent.trans (closeAfterLastWrite_ending _).keeps.unread

/-- A read task only makes the calls of the handlers, as far as reading goes. -/
theorem fireRead_unread {s s' : Session β} {decode : List HandlerCall}
    (done : s.fireRead settings decode = some s') :
    ∃ middle, performAll settings decode (s.note .fireRead) = some middle ∧ Unread middle s' := by
  obtain ⟨middle, calls, result⟩ := Option.bind_eq_some_iff.mp done
  cases result
  have counted : Unread middle { middle with
      handleCount := subtract middle.handleCount 1
      workReadCount := subtract middle.workReadCount 1 } := ⟨⟨rfl, rfl, rfl, id⟩, rfl⟩
  exact ⟨middle, calls, counted.trans (closeIfNecessary_ending _).keeps.unread⟩

/-- Only the start, a read completion and a read task touch the read side. -/
inductive Reads (s : Session β) : Action → Prop where
  | start (connect : List HandlerCall) : Reads s (.start connect)
  | readDone (result : Except ErrorCode (List UInt8)) : Reads s (.readDone result)
  | fireRead (rest : List WorkTask) (decode : List HandlerCall)
      (queue : s.workQueue = .fireRead :: rest) : Reads s (.runWork decode)

theorem step_unread {s s' : Session β} {action : Action} (other : ¬ s.Reads action)
    (step : s.Steps settings action s') :
    Unread s s' ∧ s.highWaterCalls settings action = [] := by
  cases action with
  | start connect => exact absurd (.start connect) other
  | readDone result => exact absurd (.readDone result) other
  | writeDone operation result =>
      obtain ⟨data, _, ended, how, handled⟩ := step.writeDone
      have taken : Unread s ended := by
        rcases how with rfl | ⟨bytes, rfl⟩
        · exact ⟨⟨rfl, rfl, rfl, id⟩, rfl⟩
        · exact ⟨⟨rfl, rfl, rfl, id⟩, rfl⟩
      exact ⟨taken.trans (handleWrite_unread handled), rfl⟩
  | runIo =>
      obtain ⟨task, rest, _, how⟩ := step.runIo
      have taken : Unread s { s with ioQueue := rest } := ⟨⟨rfl, rfl, rfl, id⟩, rfl⟩
      rcases how with ⟨_, rfl⟩ | ⟨_, rfl⟩
      · exact ⟨taken.trans (write_unread _), rfl⟩
      · exact ⟨taken.trans (closeTask_ending _).keeps.unread, rfl⟩
  | runWork decode =>
      obtain ⟨task, rest, queue, ⟨rfl, _⟩ | ⟨data, rfl, done⟩⟩ := step.runWork
      · exact absurd (.fireRead rest decode queue) other
      · have taken : Unread s { s with workQueue := rest } := ⟨⟨rfl, rfl, rfl, id⟩, rfl⟩
        refine ⟨taken.trans (append_keeps done).unread, ?_⟩
        simp [highWaterCalls, queue]
  | write data => exact ⟨(append_keeps step).unread, rfl⟩
  | postWrite argument =>
      cases step
      exact ⟨⟨⟨rfl, rfl, rfl, id⟩, rfl⟩, rfl⟩
  | close =>
      cases step
      exact ⟨(close_keeps s).unread, rfl⟩

theorem step_alternates {made : List HighWaterCall} {s s' : Session β} {action : Action}
    (acc : Accounted settings 0 s)
    (alternates : Alternates made (SessionBuffer.armed s.readBuffer))
    (step : s.Steps settings action s') :
    Alternates (made ++ s.highWaterCalls settings action) (SessionBuffer.armed s'.readBuffer) := by
  by_cases reads : s.Reads action
  · cases reads with
    | start connect =>
        obtain ⟨_, last, done, rfl⟩ := step.start
        obtain ⟨middle, calls, result⟩ := Option.bind_eq_some_iff.mp done
        cases result
        have connected := performAll_alternates (s := s.note .fireConnect) alternates calls
        exact connected
    | readDone result =>
        obtain ⟨reads, outstanding, done⟩ := step.readDone
        exact handleRead_alternates acc alternates outstanding done
    | fireRead rest decode queue =>
        obtain ⟨task, others, same, ⟨_, done⟩ | ⟨data, rfl, _⟩⟩ := step.runWork
        · rw [queue] at same
          cases same
          obtain ⟨middle, calls, behind⟩ := fireRead_unread done
          rw [behind.readBuffer]
          have decoded := performAll_alternates (s := note { s with workQueue := rest } .fireRead)
            alternates calls
          simpa [highWaterCalls, queue] using decoded
        · rw [queue] at same
          cases same
  · obtain ⟨same, none⟩ := step_unread reads step
    rw [none, List.append_nil, same.readBuffer]
    exact alternates

theorem reached_alternates {actions : List Action} {s : Session β}
    (run : Reached (fun _ _ => True) (Steps settings) create actions s) :
    Accounted settings 0 s ∧ Alternates (produced (step settings) (highWaterCalls settings)
      (create : Session β) actions) (SessionBuffer.armed s.readBuffer) := by
  refine run.history_all (I := fun made s =>
    Accounted settings 0 s ∧ Alternates made (SessionBuffer.armed s.readBuffer)) ?_ ?_
  · rintro made s action s' ⟨acc, alternates⟩ step
    exact ⟨step_accounted acc step, step_alternates acc alternates step⟩
  · exact ⟨create_accounted, 0, by simp [create, SessionBuffer.create_armed]⟩

end Handler

/-! ## Reading goes on -/

variable {β : Type} {settings : Settings} [MarkedBuffer β]

/-- A stored handler waits for the mask of the session, and there are as many
bytes to retrieve. A session that is open and started reads or has one stored. -/
structure Continues (settings : Settings) (s : Session β) : Prop where
  waits : SessionBuffer.armed s.readBuffer = true →
    MarkedBuffer.highWaterMask s.readBuffer = settings.readHighWaterMask ∧
      settings.readHighWaterMask ≤ SessionBuffer.readableBytes s.readBuffer
  goes : s.started = true → s.closeFlag = false →
    s.reading = true ∨ SessionBuffer.armed s.readBuffer = true

theorem Continues.same {s s' : Session β} (continues : Continues settings s)
    (same : SameReading s s') : Continues settings s' where
  waits := by
    rw [same.readBuffer]
    exact continues.waits
  goes := by
    rw [same.readBuffer, same.reading, same.started]
    refine fun started opened => continues.goes started ?_
    cases flag : s.closeFlag with
    | false => rfl
    | true => exact absurd opened (by simp [same.closeFlag flag])

theorem create_continues : Continues settings (create : Session β) where
  waits := by simp [create, SessionBuffer.create_armed]
  goes := by simp [create]

theorem retrieve_continues {s s' : Session β} {len : Nat} (continues : Continues settings s)
    (done : s.retrieve len = some s') : Continues settings s' := by
  obtain ⟨⟨readBuffer, invoked⟩, retrieved, result⟩ := Option.bind_eq_some_iff.mp done
  obtain ⟨before, after⟩ := SessionBuffer.retrieve_armed retrieved
  cases invoked with
  | false =>
      cases result
      rw [Bool.or_false] at before
      obtain ⟨mask, above⟩ := MarkedBuffer.retrieve_kept retrieved
      refine ⟨fun armed => ?_, fun started opened => ?_⟩
      · have stored := before.trans armed
        obtain ⟨waits, _⟩ := continues.waits stored
        exact ⟨mask.trans waits, waits ▸ above stored⟩
      · exact (continues.goes started opened).imp_right fun stored => before.symm.trans stored
  | true =>
      -- the handler was stored, and is `read`
      cases result
      refine ⟨fun armed => ?_, fun _ _ => .inl rfl⟩
      have unarmed := after rfl
      change SessionBuffer.armed readBuffer = true at armed
      rw [unarmed] at armed
      cases armed

theorem performAll_continues {s s' : Session β} {calls : List HandlerCall}
    (continues : Continues settings s) (done : performAll settings calls s = some s') :
    Continues settings s' := by
  induction calls generalizing s with
  | nil =>
      cases done
      exact continues
  | cons call rest ih =>
      obtain ⟨middle, first, last⟩ := Option.bind_eq_some_iff.mp done
      refine ih ?_ last
      cases call with
      | retrieve len => exact retrieve_continues continues first
      | write data => exact continues.same (append_keeps first).sameReading
      | postWrite argument =>
          cases first
          exact continues.same ⟨rfl, rfl, rfl, id⟩
      | close =>
          cases first
          exact continues.same (close_keeps s).sameReading

theorem handleRead_continues {s s' : Session β} {result : Except ErrorCode (List UInt8)}
    (unarmed : SessionBuffer.armed s.readBuffer = false)
    (done : s.handleRead settings result = some s') : Continues settings s' := by
  rcases handleRead_cases done with
    ⟨code, level, _, rfl⟩ | ⟨data, readBuffer, _, received, ⟨closing, rfl⟩ | ⟨_, _, how, rfl⟩⟩
  · have ended : Continues settings { s.readEnded.note (.log level) with closeFlag := true } :=
      ⟨fun armed => (by cases unarmed.symm.trans armed), fun _ opened => by cases opened⟩
    exact ended.same (closeAfterLastRead_ending _).keeps.sameReading
  · have still := (SessionBuffer.receive_armed received).trans unarmed
    have ended : Continues settings { s.readEnded with readBuffer := readBuffer } := by
      refine ⟨fun armed => (by cases still.symm.trans armed), fun _ opened => ?_⟩
      have flag : s.closeFlag = false := opened
      rw [flag] at closing
      cases closing
    exact ended.same (closeAfterLastRead_ending _).keeps.sameReading
  · have still := (SessionBuffer.receive_armed received).trans unarmed
    rcases how with ⟨_, rfl⟩ | ⟨above, rfl⟩
    · exact ⟨fun armed => (by cases still.symm.trans armed), fun _ _ => .inl rfl⟩
    · refine ⟨fun _ => ⟨MarkedBuffer.set_highWaterMask _ _, ?_⟩,
        fun _ _ => .inr (SessionBuffer.set_armed _ _)⟩
      refine Nat.le_trans ?_ (Nat.le_of_eq (MarkedBuffer.set_readableBytes _ _).symm)
      exact Nat.le_of_not_lt fun below => above (.inr below)

theorem step_continues {s s' : Session β} {action : Action} (acc : Accounted settings 0 s)
    (continues : Continues settings s) (step : s.Steps settings action s') :
    Continues settings s' := by
  by_cases reads : s.Reads action
  · cases reads with
    | start connect =>
        obtain ⟨fresh, last, done, rfl⟩ := step.start
        obtain ⟨middle, calls, result⟩ := Option.bind_eq_some_iff.mp done
        cases result
        have noted := continues.same (note_keeps s .fireConnect).sameReading
        have connected := performAll_continues noted calls
        exact ⟨connected.waits, fun _ _ => .inl rfl⟩
    | readDone result =>
        obtain ⟨reads, outstanding, done⟩ := step.readDone
        have unarmed := (acc.busy (acc.reading_of_reads outstanding).1).2
        exact handleRead_continues (s := { s with reads := reads }) unarmed done
    | fireRead rest decode queue =>
        obtain ⟨task, others, same, ⟨_, done⟩ | ⟨data, rfl, _⟩⟩ := step.runWork
        · obtain ⟨middle, calls, behind⟩ := fireRead_unread done
          have taken : SameReading s (note { s with workQueue := others } .fireRead) :=
            ⟨rfl, rfl, rfl, id⟩
          have decoded := performAll_continues (continues.same taken) calls
          exact decoded.same behind.toSameReading
        · rw [queue] at same
          cases same
  · exact continues.same (step_unread reads step).1.toSameReading

/-- What holds of the reads behind a run with these calls of the high-water handler. -/
structure ReadPath (settings : Settings) (calls : List HighWaterCall) (s : Session β) : Prop where
  outstanding : s.reads ≤ 1
  /-- An open session reads, or its handler waits with bytes enough to retrieve. -/
  goesOn : s.started = true → s.closeFlag = false → s.reads = 1 ∨
    SessionBuffer.armed s.readBuffer = true ∧
      MarkedBuffer.highWaterMask s.readBuffer = settings.readHighWaterMask ∧
      settings.readHighWaterMask ≤ SessionBuffer.readableBytes s.readBuffer
  once : Alternates calls (SessionBuffer.armed s.readBuffer)

theorem reached_continues {actions : List Action} {s : Session β}
    (run : Reached (fun _ _ => True) (Steps settings) create actions s) :
    Continues settings s := by
  have invariant : Accounted settings 0 s ∧ Continues settings s :=
    run.invariant_all (I := fun s => Accounted settings 0 s ∧ Continues settings s)
      (fun s a s' inv _ step => ⟨step_accounted inv.1 step, step_continues inv.1 inv.2 step⟩)
      ⟨create_accounted, create_continues⟩
  exact invariant.2

/-- In every state at most one read is outstanding. A session that is started and
not to close reads, or has a handler stored and as many bytes to retrieve as its
mask says. The handler is invoked at most once for each time it is stored. -/
theorem read_path {actions : List Action} {s : Session β}
    (run : Reached (fun _ _ => True) (Steps settings) create actions s) :
    ReadPath settings (produced (step settings) (highWaterCalls settings) (create : Session β)
      actions) s := by
  obtain ⟨acc, once⟩ := reached_alternates run
  have continues := reached_continues run
  refine ⟨?_, fun started opened => ?_, once⟩
  · rw [acc.reads]
    exact Bool.toNat_le s.reading
  · rcases continues.goes started opened with reading | armed
    · exact .inl (by rw [acc.reads, reading]; rfl)
    · exact .inr ⟨armed, continues.waits armed⟩

/-- The second read fills the buffer above its mask, and the second retrieve of a
handler takes it below. -/
def backPressureRun : List Action :=
  [.start [], .readDone (.ok [65]), .readDone (.ok [66, 67]), .runWork [],
    .runWork [.retrieve 1, .retrieve 1]]

theorem backPressureRun_path : ∃ s : Session AsioBuffer,
    last (Session.step ⟨2, 0, false, true⟩) create backPressureRun = some s ∧ s.reads = 1 ∧
      ReadPath ⟨2, 0, false, true⟩ (produced (Session.step ⟨2, 0, false, true⟩)
        (highWaterCalls ⟨2, 0, false, true⟩) (create : Session AsioBuffer) backPressureRun) s := by
  have runs : (last (Session.step ⟨2, 0, false, true⟩) (create : Session AsioBuffer)
      backPressureRun).any (fun s => s.reads = 1) = true := by
    decide +kernel
  obtain ⟨s, run, reads⟩ := (Option.any_eq_true _ _).mp runs
  exact ⟨s, run, of_decide_eq_true reads, read_path (reached_last run)⟩

end Session

end FysobEngine.Net
