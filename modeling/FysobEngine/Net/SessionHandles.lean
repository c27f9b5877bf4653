import FysobEngine.Foundation.Runs
import FysobEngine.Net.SessionInvariant

/-!
# What `handle_count_` counts

A completed read is counted until its bytes have been decoded, and a write until it
completes. A read that completes without a read task is counted from then on.
-/

namespace FysobEngine.Net

/-- The events that the count depends on. -/
def Event.counts : Event → Bool
  | .asyncReadSome | .fireRead => true
  | _ => false

namespace Session

open Foundation.Runs

variable {β : Type} {settings : Settings}

/-- What is counted in `handle_count_`, next to `running` read tasks that have left the
queue and not yet ended: the queued read tasks, the writes and `ended` reads of which no
read task was posted. -/
structure Handles (running ended : Nat) (s : Session β) : Prop where
  handles : s.handleCount =
    running + s.workQueue.count .fireRead + s.writes.length + ended
  reads : s.trace.count .asyncReadSome =
    s.reads + s.trace.count .fireRead + s.workQueue.count .fireRead + ended

/-- Every read that has completed has been decoded, and nothing is being written. -/
def Idle (s : Session β) : Prop :=
  s.writes = [] ∧ s.trace.count .asyncReadSome = s.reads + s.trace.count .fireRead

instance (s : Session β) : Decidable s.Idle := inferInstanceAs (Decidable (_ ∧ _))

/-- `check_idle` answers that the session is idle. -/
theorem Handles.idle {ended : Nat} {s : Session β} (handles : Handles 0 ended s) :
    s.handleCount = 0 ↔ s.Idle := by
  have count := handles.handles
  have reads := handles.reads
  constructor
  · intro none
    exact ⟨List.eq_nil_of_length_eq_zero (by omega), by omega⟩
  · rintro ⟨unwritten, decoded⟩
    rw [unwritten, List.length_nil] at count
    omega

/-! ## The functions -/

theorem note_handles {running ended : Nat} {s : Session β} {event : Event}
    (handles : Handles running ended s) (other : event.counts = false) :
    Handles running ended (s.note event) := by
  have reading : event ≠ .asyncReadSome := by
    rintro rfl
    cases other
  have decoding : event ≠ .fireRead := by
    rintro rfl
    cases other
  refine ⟨handles.handles, ?_⟩
  rw [count_note, count_note, if_neg reading, if_neg decoding]
  exact handles.reads

theorem read_handles {running ended : Nat} {s : Session β} (handles : Handles running ended s) :
    Handles running ended s.read := by
  refine ⟨handles.handles, ?_⟩
  have reads := handles.reads
  simp only [read, note, List.count_append, List.count_singleton_self]
  have silent : List.count Event.fireRead [.asyncReadSome] = 0 := rfl
  omega

/-- Closing starts no read and runs no read task. -/
theorem Ending.handles {running ended : Nat} {s s' : Session β} (ending : Ending s s')
    (handles : Handles running ended s) : Handles running ended s' := by
  obtain ⟨events, tasks, closing, _, rfl⟩ := ending
  have reading : events.count .asyncReadSome = 0 :=
    List.count_eq_zero.mpr fun member => by simpa [closingEvents] using closing member
  have decoding : events.count .fireRead = 0 :=
    List.count_eq_zero.mpr fun member => by simpa [closingEvents] using closing member
  refine ⟨handles.handles, ?_⟩
  rw [List.count_append, List.count_append, reading, decoding]
  exact handles.reads

variable [SessionBuffer β]

theorem create_handles : Handles 0 0 (create : Session β) := ⟨rfl, rfl⟩

theorem append_handles {running ended : Nat} {s s' : Session β} {data : List UInt8}
    (done : s.append settings data = some s') (handles : Handles running ended s) :
    Handles running ended s' := by
  obtain ⟨writeBuffer, _, result⟩ := Option.bind_eq_some_iff.mp done
  cases result
  have posted : Handles running ended (postIo { s with
      writeBuffer := writeBuffer
      pendingWriteLen := s.pendingWriteLen + data.length } .write) :=
    ⟨handles.handles, handles.reads⟩
  unfold notifyWrite
  dsimp only
  split
  · exact note_handles posted rfl
  · exact posted

theorem perform_handles {running ended : Nat} {s s' : Session β} {call : HandlerCall}
    (done : s.perform settings call = some s') (handles : Handles running ended s) :
    Handles running ended s' := by
  cases call with
  | retrieve len =>
      obtain ⟨⟨readBuffer, invoked⟩, _, result⟩ := Option.bind_eq_some_iff.mp done
      have retrieved : Handles running ended { s with readBuffer := readBuffer } :=
        ⟨handles.handles, handles.reads⟩
      cases invoked with
      | false =>
          cases result
          exact retrieved
      | true =>
          cases result
          exact read_handles retrieved
  | write data => exact append_handles done handles
  | postWrite argument =>
      cases done
      have queue : List.count WorkTask.fireRead (s.workQueue ++ [.write argument.queued]) =
          s.workQueue.count .fireRead := by
        rw [List.count_append]
        rfl
      exact ⟨queue ▸ handles.handles, queue ▸ handles.reads⟩
  | close =>
      cases done
      have flagged : Handles running ended { s with closeFlag := true } :=
        ⟨handles.handles, handles.reads⟩
      exact (closeIfNecessary_ending _).handles flagged

theorem performAll_handles {running ended : Nat} {s s' : Session β} {calls : List HandlerCall}
    (done : performAll settings calls s = some s') (handles : Handles running ended s) :
    Handles running ended s' := by
  induction calls generalizing s with
  | nil =>
      cases done
      exact handles
  | cons call rest ih =>
      obtain ⟨middle, first, last⟩ := Option.bind_eq_some_iff.mp done
      exact ih last (perform_handles first handles)

theorem start_handles {ended : Nat} {s s' : Session β} {connect : List HandlerCall}
    (done : s.start settings connect = some s') (handles : Handles 0 ended s) :
    Handles 0 ended s' := by
  obtain ⟨middle, calls, result⟩ := Option.bind_eq_some_iff.mp done
  cases result
  exact read_handles (performAll_handles calls (note_handles handles rfl))

/-- A read task is counted until its handlers have returned. -/
theorem fireRead_handles {ended : Nat} {s s' : Session β} {rest : List WorkTask}
    {decode : List HandlerCall} (handles : Handles 0 ended s)
    (queue : s.workQueue = .fireRead :: rest)
    (done : fireRead settings { s with workQueue := rest } decode = some s') :
    Handles 0 ended s' := by
  obtain ⟨middle, calls, result⟩ := Option.bind_eq_some_iff.mp done
  cases result
  have count := handles.handles
  have reads := handles.reads
  rw [queue, List.count_cons_self] at count reads
  have taken : Handles 1 ended ({ s with workQueue := rest }.note .fireRead) := by
    refine ⟨?_, ?_⟩
    · simp only [note]
      omega
    · simp only [note, List.count_append, List.count_singleton_self]
      have silent : List.count Event.asyncReadSome [.fireRead] = 0 := rfl
      omega
  obtain ⟨decodedCount, decodedReads⟩ := performAll_handles calls taken
  have returned : Handles 0 ended { middle with
      handleCount := subtract middle.handleCount 1
      workReadCount := subtract middle.workReadCount 1 } := by
    refine ⟨?_, decodedReads⟩
    simp only [subtract]
    rw [if_pos (by omega)]
    omega
  exact (closeIfNecessary_ending _).handles returned

theorem write_handles {ended : Nat} {s : Session β} (handles : Handles 0 ended s) :
    Handles 0 ended s.write := by
  unfold write
  split
  · have noted : Handles 0 ended (s.note (.asyncWriteSome
        (SessionBuffer.constBuffer s.writeBuffer))) := note_handles handles rfl
    refine ⟨?_, noted.reads⟩
    have count := handles.handles
    simp only [note, List.length_append, List.length_singleton]
    omega
  · exact handles

/-- A read that completes is counted. Where no read task is posted it stays so. -/
theorem handleRead_handles {ended reads : Nat} {s s' : Session β}
    {result : Except ErrorCode (List UInt8)} (handles : Handles 0 ended s)
    (outstanding : s.reads = reads + 1)
    (done : handleRead settings { s with reads := reads } result = some s') :
    Handles 0 ended s' ∧ (∃ data, result = .ok data) ∨ Handles 0 (ended + 1) s' := by
  have count := handles.handles
  have started := handles.reads
  rw [outstanding] at started
  rcases handleRead_cases done with
    ⟨code, level, _, rfl⟩ | ⟨data, readBuffer, arrived, _, ⟨_, rfl⟩ | ⟨_, resumed, how, rfl⟩⟩
  · refine .inr ((closeAfterLastRead_ending _).handles ?_)
    have counted : Handles 0 (ended + 1) (readEnded { s with reads := reads }) :=
      ⟨by simp only [readEnded]; omega, by simp only [readEnded]; omega⟩
    have logged : Handles 0 (ended + 1)
        ((readEnded { s with reads := reads }).note (.log level)) := note_handles counted rfl
    exact ⟨logged.handles, logged.reads⟩
  · refine .inr ((closeAfterLastRead_ending _).handles ?_)
    exact ⟨by simp only [readEnded]; omega, by simp only [readEnded]; omega⟩
  · -- the posted read task takes over the count
    refine .inl ⟨?_, data, arrived⟩
    have posted : ∀ queue : List WorkTask,
        List.count WorkTask.fireRead (queue ++ [.fireRead]) = queue.count .fireRead + 1 :=
      fun queue => by rw [List.count_append, List.count_singleton_self]
    rcases how with ⟨_, rfl⟩ | ⟨_, rfl⟩
    · refine ⟨?_, ?_⟩
      · simp only [postWork, read, readEnded, note, posted]
        omega
      · simp only [postWork, read, readEnded, note, posted, List.count_append,
          List.count_singleton_self]
        have silent : List.count Event.fireRead [.asyncReadSome] = 0 := rfl
        omega
    · refine ⟨?_, ?_⟩
      · simp only [postWork, readEnded, posted]
        omega
      · simp only [postWork, readEnded, posted]
        omega

omit [SessionBuffer β] in
/-- A write that completes is counted no more. -/
theorem writeEnded_handles {ended operation : Nat} {s behind : Session β} {data : List UInt8}
    (handles : Handles 0 ended s) (outstanding : s.writes[operation]? = some data)
    (how : behind = { s with writes := s.writes.eraseIdx operation } ∨
      ∃ bytes, behind = note { s with writes := s.writes.eraseIdx operation } (.sent bytes)) :
    Handles 0 ended behind.writeEnded := by
  have inside := (List.getElem?_eq_some_iff.mp outstanding).1
  have count := handles.handles
  have finished :
      Handles 0 ended (writeEnded { s with writes := s.writes.eraseIdx operation }) := by
    refine ⟨?_, handles.reads⟩
    simp only [writeEnded, subtract, List.length_eraseIdx_of_lt inside]
    rw [if_pos (by omega)]
    omega
  rcases how with rfl | ⟨bytes, rfl⟩
  · exact finished
  · have noted : Handles 0 ended ((writeEnded { s with
        writes := s.writes.eraseIdx operation }).note (.sent bytes)) := note_handles finished rfl
    exact noted

theorem handleWrite_handles {ended : Nat} {s s' : Session β} {result : Except ErrorCode Nat}
    (handles : Handles 0 ended s.writeEnded) (done : s.handleWrite settings result = some s') :
    Handles 0 ended s' := by
  rcases handleWrite_cases done with
    ⟨code, level, _, rfl⟩ | ⟨length, writeBuffer, invoked, _, _, ⟨_, rfl⟩ | ⟨_, rfl⟩⟩
  · have logged : Handles 0 ended (s.writeEnded.note (.log level)) := note_handles handles rfl
    refine (closeAfterLastWrite_ending _).handles ?_
    exact ⟨logged.handles, logged.reads⟩
  · have sent : Handles 0 ended (s.bytesSent writeBuffer length) :=
      ⟨handles.handles, handles.reads⟩
    exact write_handles sent
  · have sent : Handles 0 ended (s.bytesSent writeBuffer length) :=
      ⟨handles.handles, handles.reads⟩
    exact (closeAfterLastWrite_ending _).handles sent

/-! ## The steps -/

/-- A step keeps the books, and it ends a read only where a read completes. -/
theorem step_handles {ended : Nat} {s s' : Session β} {action : Action}
    (handles : Handles 0 ended s) (step : s.Steps settings action s') :
    Handles 0 ended s' ∧ (∀ code, action ≠ .readDone (.error code)) ∨
      Handles 0 (ended + 1) s' := by
  cases action with
  | start connect =>
      obtain ⟨_, last, done, rfl⟩ := step.start
      have started := start_handles done handles
      exact .inl ⟨⟨started.handles, started.reads⟩, fun _ other => by cases other⟩
  | readDone result =>
      obtain ⟨reads, outstanding, done⟩ := step.readDone
      rcases handleRead_handles handles outstanding done with ⟨kept, data, rfl⟩ | more
      · exact .inl ⟨kept, fun _ other => by cases other⟩
      · exact .inr more
  | writeDone operation result =>
      obtain ⟨data, outstanding, behind, how, handled⟩ := step.writeDone
      have finished := writeEnded_handles handles outstanding how
      exact .inl ⟨handleWrite_handles finished handled, fun _ other => by cases other⟩
  | runIo =>
      obtain ⟨task, rest, _, ⟨_, rfl⟩ | ⟨_, rfl⟩⟩ := step.runIo
      · have taken : Handles 0 ended { s with ioQueue := rest } := ⟨handles.handles, handles.reads⟩
        exact .inl ⟨write_handles taken, fun _ other => by cases other⟩
      · have taken : Handles 0 ended { s with ioQueue := rest } := ⟨handles.handles, handles.reads⟩
        exact .inl ⟨(closeTask_ending _).handles taken, fun _ other => by cases other⟩
  | runWork decode =>
      obtain ⟨task, rest, queue, ⟨rfl, done⟩ | ⟨data, rfl, done⟩⟩ := step.runWork
      · exact .inl ⟨fireRead_handles handles queue done, fun _ other => by cases other⟩
      · have count : s.workQueue.count .fireRead = rest.count .fireRead := by
          rw [queue]
          exact List.count_cons_of_ne fun same => by cases same
        have taken : Handles 0 ended { s with workQueue := rest } :=
          ⟨count ▸ handles.handles, count ▸ handles.reads⟩
        exact .inl ⟨append_handles done taken, fun _ other => by cases other⟩
  | write data => exact .inl ⟨append_handles step handles, fun _ other => by cases other⟩
  | postWrite argument =>
      have performed : s.perform settings (.postWrite argument) = some s' := step
      exact .inl ⟨perform_handles performed handles, fun _ other => by cases other⟩
  | close =>
      have performed : s.perform settings .close = some s' := step
      exact .inl ⟨perform_handles performed handles, fun _ other => by cases other⟩

/-- A run keeps the books, and no read that has failed is forgotten. -/
theorem run_handles {ended : Nat} {actions : List Action} {s s' : Session β}
    (run : Reached (fun _ _ => True) (Steps settings) s actions s')
    (handles : Handles 0 ended s) :
    ∃ later, ended ≤ later ∧ Handles 0 later s' ∧
      ((∃ code, .readDone (.error code) ∈ actions) → later ≠ 0) := by
  induction run generalizing ended with
  | nil => exact ⟨ended, Nat.le_refl ended, handles, fun ⟨_, member⟩ => by cases member⟩
  | @cons s middle last action rest _ step _ ih =>
      rcases step_handles handles step with ⟨kept, harmless⟩ | more
      · obtain ⟨later, grows, books, failed⟩ := ih kept
        refine ⟨later, grows, books, fun ⟨code, member⟩ => failed ⟨code, ?_⟩⟩
        rcases List.mem_cons.mp member with here | there
        · exact absurd here.symm (harmless code)
        · exact there
      · obtain ⟨later, grows, books, _⟩ := ih more
        exact ⟨later, by omega, books, fun _ => by omega⟩

end Session

end FysobEngine.Net
